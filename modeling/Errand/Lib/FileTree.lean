import Mathlib.Data.List.Dedup
import Mathlib.Data.List.Infix
import Mathlib.Data.List.Nodup
import Errand.Lib.Dict
import Errand.Lib.FreeNames

/-
  Errand.Lib.FileTree — a file system's tree under one root: what stands at a path, a
  path being its components (`[]` is the root).

  A tree carries that whatever stands below another node stands below a directory. The
  operations answer with nothing where the system call raises: `put` writes a file or
  overwrites one, `remove` takes a file away, `makedirs` makes a directory and those above
  it, `rename` moves a file or a directory to a path where nothing is.

  Rules: what is found at each path after each operation (`get?_put`, `get?_remove`,
  `get?_makedirs`, `get?_rename`), when a directory can be made (`makedirs_isSome_iff`), and
  that the first free one of infinitely many names is found (`fresh_spec`).
-/

namespace Errand.Lib

universe u

abbrev Path := List String

inductive Node (α : Type u) where
  | file (content : α)
  | dir
  deriving DecidableEq, Repr

instance {α : Type u} (n : Option (Node α)) : Decidable (n = some .dir) :=
  match n with
  | none => isFalse nofun
  | some (.file _) => isFalse nofun
  | some .dir => isTrue rfl

instance {α : Type u} (n : Option (Node α)) : Decidable (n = none) :=
  decidable_of_iff (n.isNone = true) Option.isNone_iff_eq_none

structure FileTree (α : Type u) where
  nodes : List (Path × Node α)
  closed : ∀ p q : Path, p ≠ [] → q ≠ [] → Dict.get? nodes (p ++ q) ≠ none → Dict.get? nodes p = some .dir

namespace FileTree

variable {α : Type u}

def get? (t : FileTree α) (p : Path) : Option (Node α) := Dict.get? t.nodes p

/-- The paths above a path and below the root. -/
def above (p : Path) : List Path := p.dropLast.inits.filter fun a => !a.isEmpty

theorem mem_above {a p : Path} : a ∈ above p ↔ a ≠ [] ∧ ∃ b, b ≠ [] ∧ p = a ++ b := by
  unfold above
  rw [List.mem_filter, List.mem_inits]
  constructor
  · intro hmem
    rcases hmem with ⟨⟨b, hb⟩, ha⟩
    have ha : a ≠ [] := by simpa using ha
    have hp : p ≠ [] := by
      intro heq
      subst heq
      exact ha (List.append_eq_nil_iff.mp hb).1
    refine ⟨ha, b ++ [p.getLast hp], by simp, ?_⟩
    rw [← List.append_assoc, hb, List.dropLast_append_getLast hp]
  · intro hmem
    rcases hmem with ⟨ha, b, hb, rfl⟩
    refine ⟨⟨b.dropLast, ?_⟩, by simpa using ha⟩
    rw [List.dropLast_append_of_ne_nil hb]

theorem mem_above_concat {a p : Path} {c : String} : a ∈ above (p ++ [c]) ↔ a ≠ [] ∧ a <+: p := by
  rw [above, List.dropLast_concat, List.mem_filter, List.mem_inits, and_comm]
  simp

/-- Below a file there is nothing, and nothing below a path where nothing is. -/
theorem get?_below {t : FileTree α} {p q : Path} (hp : p ≠ []) (hq : q ≠ []) (h : t.get? p ≠ some .dir) :
    t.get? (p ++ q) = none := by
  by_contra hne
  exact h (t.closed p q hp hq hne)

/-- What stands at each path of a list that has every directory on the way. -/
def ofNodes (nodes : List (Path × Node α)) (h : ∀ p ∈ Dict.keys nodes, ∀ a ∈ above p, Dict.get? nodes a = some .dir) :
    FileTree α where
  nodes := nodes
  closed := fun a b ha hb hab => by
    have hmem : a ++ b ∈ Dict.keys nodes := (Dict.mem_keys_iff ..).mpr (Option.isSome_iff_ne_none.mpr hab)
    exact h _ hmem a (mem_above.mpr ⟨ha, b, hb, rfl⟩)

/-- The paths at which something stands, each once. -/
def paths (t : FileTree α) : List Path := (Dict.keys t.nodes).dedup

theorem mem_paths {t : FileTree α} {p : Path} : p ∈ t.paths ↔ t.get? p ≠ none := by
  rw [paths, List.mem_dedup, Dict.mem_keys_iff, Option.isSome_iff_ne_none]
  rfl

/-! ## Writing and removing files -/

/-- The path is not the root, and everything above it is a directory. -/
def Stands (t : FileTree α) (p : Path) : Prop := p ≠ [] ∧ ∀ a ∈ above p, t.get? a = some .dir

instance (t : FileTree α) (p : Path) : Decidable (t.Stands p) :=
  inferInstanceAs (Decidable (_ ∧ _))

theorem set_closed {t : FileTree α} {p : Path} {n : Node α} (hp : t.Stands p) (hn : n = .dir ∨ t.get? p ≠ some .dir) :
    ∀ a b : Path, a ≠ [] → b ≠ [] → Dict.get? (Dict.set t.nodes p n) (a ++ b) ≠ none →
      Dict.get? (Dict.set t.nodes p n) a = some .dir := by
  intro a b ha hb hab
  by_cases e : p = a ++ b
  · -- the path itself: what is above it was there before
    have hne : p ≠ a := by
      intro heq
      subst heq
      exact hb (List.append_right_eq_self.mp e.symm)
    rw [Dict.get?_set_other _ _ hne]
    exact hp.2 a (mem_above.mpr ⟨ha, b, hb, e⟩)
  · rw [Dict.get?_set_other _ _ e] at hab
    have hdir := t.closed a b ha hb hab
    by_cases ea : p = a
    · subst ea
      rcases hn with rfl | hn
      · exact Dict.get?_set_self ..
      · exact absurd hdir hn
    · rw [Dict.get?_set_other _ _ ea]
      exact hdir

def put (t : FileTree α) (p : Path) (content : α) : Option (FileTree α) :=
  if h : t.Stands p ∧ t.get? p ≠ some .dir then
    some ⟨Dict.set t.nodes p (.file content), set_closed h.1 (Or.inr h.2)⟩
  else none

theorem get?_put {t t' : FileTree α} {p : Path} {content : α} (h : t.put p content = some t') (k : Path) :
    t'.get? k = if p = k then some (.file content) else t.get? k := by
  unfold put at h
  split at h
  · cases h
    exact Dict.get?_set ..
  · cases h

theorem pop_closed {t : FileTree α} {p : Path} (hn : t.get? p ≠ some .dir) :
    ∀ a b : Path, a ≠ [] → b ≠ [] → Dict.get? (Dict.pop t.nodes p) (a ++ b) ≠ none →
      Dict.get? (Dict.pop t.nodes p) a = some .dir := by
  intro a b ha hb hab
  by_cases e : p = a ++ b
  · subst e
    exact absurd (Dict.get?_pop_self ..) hab
  · rw [Dict.get?_pop_other _ e] at hab
    have hdir := t.closed a b ha hb hab
    have ea : p ≠ a := by
      intro heq
      subst heq
      exact hn hdir
    rw [Dict.get?_pop_other _ ea]
    exact hdir

/-- `os.remove`; none where it raises, a missing file included. -/
def remove (t : FileTree α) (p : Path) : Option (FileTree α) :=
  match h : t.get? p with
  | some (.file _) => some ⟨Dict.pop t.nodes p, pop_closed (by rw [h]; simp)⟩
  | _ => none

theorem get?_remove {t t' : FileTree α} {p : Path} (h : t.remove p = some t') (k : Path) :
    t'.get? k = if p = k then none else t.get? k := by
  unfold remove at h
  split at h
  · cases h
    split
    · rename_i e
      subst e
      exact Dict.get?_pop_self ..
    · rename_i e
      exact Dict.get?_pop_other _ e
  · cases h

/-! ## Directories -/

/-- `os.mkdir`, with a directory that is there already as good as made. -/
def mkdir (t : FileTree α) (p : Path) : Option (FileTree α) :=
  if t.get? p = some .dir then some t
  else if h : t.Stands p ∧ t.get? p = none then some ⟨Dict.set t.nodes p .dir, set_closed h.1 (Or.inl rfl)⟩
  else none

theorem get?_mkdir {t t' : FileTree α} {p : Path} (h : t.mkdir p = some t') (k : Path) :
    t'.get? k = if p = k then some .dir else t.get? k := by
  unfold mkdir at h
  split at h
  · rename_i hd
    cases h
    split
    · rename_i e
      rw [← e, hd]
    · rfl
  · split at h
    · cases h
      exact Dict.get?_set ..
    · cases h

/-- The directories on the way from one that is there, each made if it is missing. -/
def makedirsFrom (made : Path) : Path → FileTree α → Option (FileTree α)
  | [], t => some t
  | c :: rest, t => (t.mkdir (made ++ [c])).bind (makedirsFrom (made ++ [c]) rest)

/-- `os.makedirs(path, exist_ok=True)`. -/
def makedirs (t : FileTree α) (p : Path) : Option (FileTree α) := makedirsFrom [] p t

theorem get?_makedirsFrom {rest : Path} : ∀ {made : Path} {t t' : FileTree α},
    makedirsFrom made rest t = some t' → ∀ k,
      t'.get? k = if made <+: k ∧ k ≠ made ∧ k <+: made ++ rest then some .dir else t.get? k := by
  induction rest with
  | nil =>
    intro made t t' h k
    cases h
    rw [if_neg]
    intro hall
    rcases hall with ⟨h1, h2, h3⟩
    rw [List.append_nil] at h3
    exact h2 (h3.eq_of_length_le h1.length_le)
  | cons c rest ih =>
    intro made t t' h k
    obtain ⟨u, hu, h⟩ := Option.bind_eq_some_iff.mp h
    rw [ih h k, get?_mkdir hu k, List.append_assoc, List.singleton_append]
    by_cases hk : k = made ++ [c]
    · subst hk
      have h1 : made <+: made ++ [c] := List.prefix_append ..
      have h2 : made ++ [c] ≠ made := by simp
      have h3 : made ++ [c] <+: made ++ c :: rest := by simp [List.prefix_append_right_inj]
      rw [if_pos rfl, ite_self, if_pos ⟨h1, h2, h3⟩]
    · rw [if_neg (Ne.symm hk)]
      -- past the new directory is the same as past the one before it
      have hiff : (made ++ [c] <+: k ∧ k ≠ made ++ [c] ∧ k <+: made ++ c :: rest) ↔
          (made <+: k ∧ k ≠ made ∧ k <+: made ++ c :: rest) := by
        constructor
        · intro hall
          rcases hall with ⟨h1, -, h3⟩
          refine ⟨(List.prefix_append ..).trans h1, ?_, h3⟩
          intro heq
          subst heq
          have hlen := h1.length_le
          rw [List.length_append, List.length_singleton] at hlen
          omega
        · intro hall
          rcases hall with ⟨⟨b, rfl⟩, h2, h3⟩
          rw [List.prefix_append_right_inj] at h3
          cases b with
          | nil => exact absurd (List.append_nil made) h2
          | cons d b =>
            obtain ⟨rfl, -⟩ := List.cons_prefix_cons.mp h3
            refine ⟨by simp, hk, by rwa [List.prefix_append_right_inj]⟩
      simp only [hiff]

theorem get?_makedirs {t t' : FileTree α} {p : Path} (h : t.makedirs p = some t') (k : Path) :
    t'.get? k = if k ≠ [] ∧ k <+: p then some .dir else t.get? k := by
  have := get?_makedirsFrom h k
  simpa using this

theorem mkdir_isSome_iff {t : FileTree α} {made : Path} {c : String}
    (hmade : made = [] ∨ t.get? made = some .dir) :
    (t.mkdir (made ++ [c])).isSome = true ↔ ∀ a, t.get? (made ++ [c]) ≠ some (.file a) := by
  have hstands : t.Stands (made ++ [c]) := by
    refine ⟨by simp, fun a ha => ?_⟩
    obtain ⟨hne, b, rfl⟩ := mem_above_concat.mp ha
    rcases hmade with hm | hm
    · exact absurd (List.append_eq_nil_iff.mp hm).1 hne
    · by_cases hb : b = []
      · rw [hb, List.append_nil] at hm
        exact hm
      · exact t.closed a b hne hb (by rw [get?] at hm; rw [hm]; simp)
  unfold mkdir
  by_cases hdir : t.get? (made ++ [c]) = some .dir
  · rw [if_pos hdir, hdir]
    simp
  · rw [if_neg hdir]
    by_cases hnone : t.get? (made ++ [c]) = none
    · rw [dif_pos ⟨hstands, hnone⟩]
      simp [hnone]
    · rw [dif_neg fun h => hnone h.2]
      obtain ⟨n, hn⟩ := Option.ne_none_iff_exists'.mp hnone
      cases n with
      | file a => simp [hn]
      | dir => exact absurd hn hdir

theorem makedirsFrom_isSome_iff {rest : Path} : ∀ {made : Path} {t : FileTree α},
    (made = [] ∨ t.get? made = some .dir) → ((makedirsFrom made rest t).isSome = true ↔
      ∀ b, b ≠ [] → b <+: rest → ∀ a, t.get? (made ++ b) ≠ some (.file a)) := by
  induction rest with
  | nil =>
    intro made t _
    simp only [makedirsFrom, Option.isSome_some, true_iff]
    intro b hb hp
    exact absurd (List.prefix_nil.mp hp) hb
  | cons c rest ih =>
    intro made t hmade
    have hfirst := mkdir_isSome_iff (c := c) hmade
    rw [makedirsFrom]
    cases hu : t.mkdir (made ++ [c]) with
    | none =>
      rw [hu] at hfirst
      have hfile : ∃ a, t.get? (made ++ [c]) = some (.file a) := by simpa using hfirst
      obtain ⟨a, ha⟩ := hfile
      simp only [Option.bind_none, Option.isSome_none, Bool.false_eq_true, false_iff, not_forall]
      exact ⟨[c], by simp, by simp, a, fun h => h ha⟩
    | some u =>
      rw [hu] at hfirst
      have hnofile : ∀ a, t.get? (made ++ [c]) ≠ some (.file a) := hfirst.mp rfl
      have hmade' : u.get? (made ++ [c]) = some .dir := by rw [get?_mkdir hu, if_pos rfl]
      rw [Option.bind_some, ih (Or.inr hmade')]
      constructor
      · intro h b hb hp a
        cases b with
        | nil => exact absurd rfl hb
        | cons d b =>
          obtain ⟨rfl, hrest⟩ := List.cons_prefix_cons.mp hp
          by_cases hb' : b = []
          · rw [hb']
            exact hnofile a
          · have hfree := h b hb' hrest a
            rw [List.append_assoc, List.singleton_append, get?_mkdir hu, if_neg (by simpa using hb')] at hfree
            exact hfree
      · intro h b hb hp a
        rw [List.append_assoc, List.singleton_append, get?_mkdir hu, if_neg (by simpa using hb)]
        exact h (c :: b) (by simp) (List.cons_prefix_cons.mpr ⟨rfl, hp⟩) a

/-- A directory can be made unless a file stands there or on the way to it. -/
theorem makedirs_isSome_iff {t : FileTree α} {p : Path} :
    (t.makedirs p).isSome = true ↔ ∀ b, b ≠ [] → b <+: p → ∀ a, t.get? b ≠ some (.file a) := by
  exact makedirsFrom_isSome_iff (Or.inl rfl)

/-! ## Moving -/

/-- What stands at `p` and below, at `q` and below. -/
def moved (p q : Path) (nodes : List (Path × Node α)) : List (Path × Node α) :=
  nodes.filterMap fun item => if p <+: item.1 then some (q ++ item.1.drop p.length, item.2) else none

/-- What stands elsewhere. -/
def others (p : Path) (nodes : List (Path × Node α)) : List (Path × Node α) :=
  nodes.filter fun item => !decide (p <+: item.1)

theorem get?_moved (p q : Path) (nodes : List (Path × Node α)) (k : Path) :
    Dict.get? (moved p q nodes) k = if q <+: k then Dict.get? nodes (p ++ k.drop q.length) else none := by
  induction nodes with
  | nil => simp [moved, Dict.get?]
  | cons item nodes ih =>
    obtain ⟨i, n⟩ := item
    unfold moved at ih ⊢
    by_cases hp : p <+: i
    · obtain ⟨b, rfl⟩ := hp
      rw [List.filterMap_cons_some (b := (q ++ b, n)) (by simp), Dict.get?, ih]
      by_cases hk : q <+: k
      · obtain ⟨d, rfl⟩ := hk
        by_cases e : b = d
        · simp [e, Dict.get?]
        · simp [e, Dict.get?]
      · rw [if_neg hk, if_neg hk, if_neg]
        intro heq
        subst heq
        exact hk (List.prefix_append ..)
    · rw [List.filterMap_cons_none (by simp [hp]), ih]
      split
      · rw [Dict.get?, if_neg]
        intro heq
        subst heq
        exact hp (List.prefix_append ..)
      · rfl

theorem get?_others (p : Path) (nodes : List (Path × Node α)) (k : Path) :
    Dict.get? (others p nodes) k = if p <+: k then none else Dict.get? nodes k := by
  induction nodes with
  | nil => simp [others, Dict.get?]
  | cons item nodes ih =>
    obtain ⟨i, n⟩ := item
    unfold others at ih ⊢
    by_cases hp : p <+: i
    · rw [List.filter_cons_of_neg (by simpa using hp), ih]
      split
      · rfl
      · rename_i hk
        rw [Dict.get?, if_neg]
        intro heq
        subst heq
        exact hk hp
    · rw [List.filter_cons_of_pos (by simpa using hp), Dict.get?, Dict.get?, ih]
      by_cases e : i = k
      · subst e
        rw [if_pos rfl, if_neg hp]
        simp
      · rw [if_neg e, if_neg e]

theorem get?_append (d e : List (Path × Node α)) (k : Path) :
    Dict.get? (d ++ e) k = (Dict.get? d k).or (Dict.get? e k) := by
  induction d with
  | nil => rfl
  | cons item d ih =>
    obtain ⟨i, n⟩ := item
    rw [List.cons_append, Dict.get?, Dict.get?, ih]
    split
    · rfl
    · rfl

/-- There is something at `p`, nothing at `q`, and `q` is not below `p`. -/
def Movable (t : FileTree α) (p q : Path) : Prop :=
  p ≠ [] ∧ t.get? p ≠ none ∧ t.Stands q ∧ t.get? q = none ∧ ¬p <+: q

instance (t : FileTree α) (p q : Path) : Decidable (t.Movable p q) :=
  inferInstanceAs (Decidable (_ ∧ _))

theorem get?_renamed {t : FileTree α} {p q : Path} (h : t.Movable p q) (k : Path) :
    Dict.get? (others p t.nodes ++ moved p q t.nodes) k =
      if q <+: k then t.get? (p ++ k.drop q.length) else if p <+: k then none else t.get? k := by
  obtain ⟨-, hp, hq, hfree, hpq⟩ := h
  rw [get?_append, get?_others, get?_moved]
  by_cases hk : q <+: k
  · rw [if_pos hk, if_pos hk]
    obtain ⟨d, rfl⟩ := hk
    -- nothing was there before: it is below a path where nothing is
    have hnone : t.get? (q ++ d) = none := by
      by_cases hd : d = []
      · rw [hd, List.append_nil]
        exact hfree
      · exact get?_below hq.1 hd (by rw [hfree]; simp)
    rw [get?] at hnone
    rw [hnone, ite_self]
    rfl
  · rw [if_neg hk, if_neg hk, Option.or_none]
    rfl

theorem renamed_closed {t : FileTree α} {p q : Path} (h : t.Movable p q) :
    ∀ a b : Path, a ≠ [] → b ≠ [] → Dict.get? (others p t.nodes ++ moved p q t.nodes) (a ++ b) ≠ none →
      Dict.get? (others p t.nodes ++ moved p q t.nodes) a = some .dir := by
  intro a b ha hb hab
  have ⟨hpne, hp, hq, hfree, hpq⟩ := h
  rw [get?_renamed h] at hab ⊢
  by_cases hk : q <+: a ++ b
  · rw [if_pos hk] at hab
    by_cases hqa : q <+: a
    · -- both moved: the same two paths below `p` before
      obtain ⟨d, rfl⟩ := hqa
      rw [if_pos (List.prefix_append ..)]
      rw [List.append_assoc, List.drop_left] at hab
      rw [List.drop_left]
      rw [← List.append_assoc] at hab
      exact t.closed (p ++ d) b (by simp [hpne]) hb hab
    · -- above the place it moved to
      have haq : a <+: q := by
        rcases List.prefix_or_prefix_of_prefix hk (List.prefix_append a b) with h' | h'
        · exact absurd h' hqa
        · exact h'
      have hmem : a ∈ above q := by
        obtain ⟨d, hd⟩ := haq
        refine mem_above.mpr ⟨ha, d, ?_, hd.symm⟩
        intro heq
        subst heq
        rw [List.append_nil] at hd
        exact hqa (hd ▸ List.prefix_refl _)
      rw [if_neg hqa, if_neg fun hpa => hpq (hpa.trans haq)]
      exact hq.2 a hmem
  · rw [if_neg hk] at hab
    have hqa : ¬q <+: a := fun h' => hk (h'.trans (List.prefix_append ..))
    rw [if_neg hqa]
    by_cases hpk : p <+: a ++ b
    · rw [if_pos hpk] at hab
      exact absurd rfl hab
    · rw [if_neg hpk] at hab
      rw [if_neg fun hpa => hpk (hpa.trans (List.prefix_append ..))]
      exact t.closed a b ha hb hab

/-- `os.rename` to a path where nothing is. -/
def rename (t : FileTree α) (p q : Path) : Option (FileTree α) :=
  if h : t.Movable p q then some ⟨others p t.nodes ++ moved p q t.nodes, renamed_closed h⟩ else none

theorem get?_rename {t t' : FileTree α} {p q : Path} (h : t.rename p q = some t') (k : Path) :
    t'.get? k = if q <+: k then t.get? (p ++ k.drop q.length) else if p <+: k then none else t.get? k := by
  unfold rename at h
  split at h
  · rename_i hm
    cases h
    exact get?_renamed hm k
  · cases h

theorem rename_isSome_iff {t : FileTree α} {p q : Path} :
    (t.rename p q).isSome = true ↔ t.Movable p q := by
  unfold rename
  split
  · rename_i h
    simpa using h
  · rename_i h
    simpa using h

/-! ## Free names -/

/-- The first of the names that is free; a tree has finitely many taken. -/
def fresh (t : FileTree α) (name : Nat → Path) : Path :=
  (((List.range (t.nodes.length + 1)).map name).find? fun p => (t.get? p).isNone).getD (name 0)

/-- Of more names than there are nodes one is free. -/
theorem exists_free (t : FileTree α) {name : Nat → Path} (hinj : Function.Injective name) :
    ∃ n < t.nodes.length + 1, t.get? (name n) = none := by
  obtain ⟨n, hn, hfree⟩ := FreeNames.exists_free (Dict.keys t.nodes) hinj
  rw [Dict.keys, List.length_map] at hn
  refine ⟨n, hn, Option.not_isSome_iff_eq_none.mp fun hsome => hfree ?_⟩
  exact (Dict.mem_keys_iff ..).mpr hsome

theorem fresh_spec {t : FileTree α} {name : Nat → Path} (hinj : Function.Injective name) :
    t.get? (fresh t name) = none ∧ ∃ n, fresh t name = name n := by
  obtain ⟨k, hk, hfree⟩ := exists_free t hinj
  have hex : ∃ p ∈ (List.range (t.nodes.length + 1)).map name, (t.get? p).isNone = true :=
    ⟨name k, List.mem_map_of_mem (List.mem_range.mpr hk), by rw [hfree]; rfl⟩
  obtain ⟨p, hp⟩ := Option.isSome_iff_exists.mp (List.find?_isSome.mpr hex)
  have hnone := List.find?_some hp
  obtain ⟨n, -, hn⟩ := List.mem_map.mp (List.mem_of_find?_eq_some hp)
  unfold fresh
  rw [hp, Option.getD_some]
  exact ⟨Option.isNone_iff_eq_none.mp hnone, n, hn.symm⟩

end FileTree

end Errand.Lib

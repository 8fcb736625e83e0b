import Mathlib.Data.List.Basic

/-
  Errand.Lib.Dict — Python's `dict` as its items in insertion order.

  Setting a key that is there keeps its place. Rules: what `get?` finds after `set` and
  `pop`, at the key and at the others (the simp set of the operations), and the same read
  backwards (`get?_set_cases`, `get?_pop_some`); that the keys of a dict made of items stand once each (`nodup_ofItems`). `get?_mapValues`, `get?_ofKeys`: what
  it finds where every value is replaced, and in a dict made for some keys.
-/

namespace Errand.Lib.Dict

universe u v

variable {κ : Type u} [DecidableEq κ] {α : Type v}

def get? : List (κ × α) → κ → Option α
  | [], _ => none
  | (k, a) :: d, key => if k = key then some a else get? d key

/-- `d[key] = value`. -/
def set : List (κ × α) → κ → α → List (κ × α)
  | [], key, value => [(key, value)]
  | (k, a) :: d, key, value => if k = key then (k, value) :: d else (k, a) :: set d key value

/-- `d.pop(key, None)`. -/
def pop (d : List (κ × α)) (key : κ) : List (κ × α) := d.filter fun item => item.1 ≠ key

/-- `d.setdefault(key, value)`. -/
def setDefault (d : List (κ × α)) (key : κ) (value : α) : List (κ × α) :=
  if (get? d key).isSome then d else set d key value

def keys (d : List (κ × α)) : List κ := d.map Prod.fst

/-- A dict of items of which the last counts. -/
def ofItems (items : List (κ × α)) : List (κ × α) := items.foldl (fun d item => set d item.1 item.2) []

theorem get?_cons (k : κ) (a : α) (d : List (κ × α)) (key : κ) :
    get? ((k, a) :: d) key = if k = key then some a else get? d key := rfl

theorem set_cons (k : κ) (a : α) (d : List (κ × α)) (key : κ) (value : α) :
    set ((k, a) :: d) key value = if k = key then (k, value) :: d else (k, a) :: set d key value := rfl

theorem get?_set (d : List (κ × α)) (key : κ) (value : α) (k : κ) :
    get? (set d key value) k = if key = k then some value else get? d k := by
  induction d with
  | nil => rfl
  | cons item d ih =>
    obtain ⟨k', a⟩ := item
    rw [set_cons]
    split
    · rename_i h
      subst h
      rw [get?_cons, get?_cons]
      split
      · rfl
      · rfl
    · rename_i h
      rw [get?_cons, get?_cons, ih]
      by_cases hk : k' = k
      · subst hk
        rw [if_pos rfl, if_pos rfl, if_neg (Ne.symm h)]
      · rw [if_neg hk, if_neg hk]

@[simp] theorem get?_set_self (d : List (κ × α)) (key : κ) (value : α) : get? (set d key value) key = some value := by
  rw [get?_set, if_pos rfl]

theorem get?_set_other (d : List (κ × α)) {key k : κ} (value : α) (h : key ≠ k) :
    get? (set d key value) k = get? d k := by
  rw [get?_set, if_neg h]

/-- What is found after a `set` is the new value, or was there. -/
theorem get?_set_cases {d : List (κ × α)} {key k : κ} {value a : α} (h : get? (set d key value) k = some a) :
    key = k ∧ value = a ∨ key ≠ k ∧ get? d k = some a := by
  rw [get?_set] at h
  split at h
  · rename_i hk
    exact .inl ⟨hk, Option.some.inj h⟩
  · rename_i hk
    exact .inr ⟨hk, h⟩

theorem isSome_set {d : List (κ × α)} {k : κ} (key : κ) (value : α) (h : (get? d k).isSome = true) :
    (get? (set d key value) k).isSome = true := by
  rw [get?_set]
  split
  · rfl
  · exact h

@[simp] theorem get?_pop_self (d : List (κ × α)) (key : κ) : get? (pop d key) key = none := by
  induction d with
  | nil => rfl
  | cons item d ih =>
    obtain ⟨k, a⟩ := item
    unfold pop at ih ⊢
    rw [List.filter_cons]
    split
    · rename_i h
      rw [get?_cons, if_neg (by simpa using h), ih]
    · exact ih

theorem get?_pop_other (d : List (κ × α)) {key k : κ} (h : key ≠ k) : get? (pop d key) k = get? d k := by
  induction d with
  | nil => rfl
  | cons item d ih =>
    obtain ⟨k', a⟩ := item
    unfold pop at ih ⊢
    rw [List.filter_cons]
    split
    · rw [get?_cons, get?_cons, ih]
    · rename_i hk
      have hk : k' = key := by simpa using hk
      subst hk
      rw [get?_cons, if_neg h, ih]

/-- What is found after a `pop` was there, under another key. -/
theorem get?_pop_some {d : List (κ × α)} {key k : κ} {a : α} (h : get? (pop d key) k = some a) :
    key ≠ k ∧ get? d k = some a := by
  by_cases hk : key = k
  · rw [hk, get?_pop_self] at h
    cases h
  · rw [get?_pop_other d hk] at h
    exact ⟨hk, h⟩

theorem get?_setDefault (d : List (κ × α)) (key : κ) (value : α) (k : κ) :
    get? (setDefault d key value) k = if key = k then some ((get? d k).getD value) else get? d k := by
  unfold setDefault
  split
  · rename_i h
    obtain ⟨a, ha⟩ := Option.isSome_iff_exists.mp h
    split
    · rename_i hk
      subst hk
      rw [ha]
      rfl
    · rfl
  · rename_i h
    rw [get?_set]
    split
    · rename_i hk
      subst hk
      rw [Option.not_isSome_iff_eq_none.mp h]
      rfl
    · rfl

theorem mem_keys_iff (d : List (κ × α)) (key : κ) : key ∈ keys d ↔ (get? d key).isSome = true := by
  induction d with
  | nil => simp [keys, get?]
  | cons item d ih =>
    obtain ⟨k, a⟩ := item
    unfold keys at ih ⊢
    rw [List.map_cons, List.mem_cons, ih, get?_cons]
    by_cases h : k = key
    · simp [h]
    · simp [h, Ne.symm h]

theorem mem_set {d : List (κ × α)} {key : κ} {value : α} {item : κ × α} (h : item ∈ set d key value) :
    item ∈ d ∨ item = (key, value) := by
  induction d with
  | nil => exact Or.inr (List.mem_singleton.mp h)
  | cons f d ih =>
    obtain ⟨k, a⟩ := f
    rw [set_cons] at h
    split at h
    · rename_i hk
      rcases List.mem_cons.mp h with rfl | h
      · exact Or.inr (by rw [hk])
      · exact Or.inl (List.mem_cons_of_mem _ h)
    · rcases List.mem_cons.mp h with rfl | h
      · exact Or.inl (List.mem_cons_self ..)
      · rcases ih h with h | h
        · exact Or.inl (List.mem_cons_of_mem _ h)
        · exact Or.inr h

/-- A key that is not there goes to the end. -/
theorem set_absent {d : List (κ × α)} {key : κ} (h : get? d key = none) (value : α) :
    set d key value = d ++ [(key, value)] := by
  induction d with
  | nil => rfl
  | cons item d ih =>
    obtain ⟨k, a⟩ := item
    rw [get?_cons] at h
    split at h
    · cases h
    · rename_i hk
      rw [set_cons, if_neg hk, ih h]
      rfl

theorem nodup_set {d : List (κ × α)} (h : (keys d).Nodup) (key : κ) (value : α) : (keys (set d key value)).Nodup := by
  induction d with
  | nil => exact List.nodup_cons.mpr ⟨List.not_mem_nil, List.nodup_nil⟩
  | cons f d ih =>
    obtain ⟨k, a⟩ := f
    have ⟨hk, hd⟩ := List.nodup_cons.mp h
    rw [set_cons]
    split
    · exact h
    · rename_i hne
      refine List.nodup_cons.mpr ⟨fun hmem => hk ?_, ih hd⟩
      obtain ⟨item, hitem, he⟩ := List.mem_map.mp hmem
      rcases mem_set hitem with hitem | rfl
      · exact List.mem_map.mpr ⟨item, hitem, he⟩
      · exact absurd he.symm hne

theorem ofItems_foldl {items d : List (κ × α)} (h : (keys d).Nodup) :
    (keys (items.foldl (fun d item => set d item.1 item.2) d)).Nodup ∧
      ∀ item ∈ items.foldl (fun d item => set d item.1 item.2) d, item ∈ d ∨ item ∈ items := by
  induction items generalizing d with
  | nil => exact ⟨h, fun item hi => Or.inl hi⟩
  | cons f items ih =>
    obtain ⟨hnodup, hmem⟩ := ih (nodup_set h f.1 f.2)
    refine ⟨hnodup, fun item hi => ?_⟩
    rcases hmem item hi with hi | hi
    · rcases mem_set hi with hi | rfl
      · exact Or.inl hi
      · exact Or.inr (List.mem_cons_self ..)
    · exact Or.inr (List.mem_cons_of_mem _ hi)

/-- Each key of a dict stands once. -/
theorem nodup_ofItems (items : List (κ × α)) : (keys (ofItems items)).Nodup :=
  (ofItems_foldl (d := []) List.nodup_nil).1

theorem mem_of_mem_ofItems {items : List (κ × α)} {item : κ × α} (h : item ∈ ofItems items) : item ∈ items :=
  ((ofItems_foldl (d := []) List.nodup_nil).2 item h).resolve_left List.not_mem_nil

theorem mem_keys_foldl {items d : List (κ × α)} {key : κ} :
    key ∈ keys (items.foldl (fun d item => set d item.1 item.2) d) ↔ key ∈ keys d ∨ key ∈ keys items := by
  induction items generalizing d with
  | nil => simp [keys]
  | cons f items ih =>
    have hset : key ∈ keys (set d f.1 f.2) ↔ key ∈ keys d ∨ key = f.1 := by
      rw [mem_keys_iff, mem_keys_iff, get?_set]
      by_cases h : f.1 = key
      · simp [h]
      · simp [h, Ne.symm h]
    rw [List.foldl_cons, ih, hset, or_assoc]
    simp [keys]

theorem mem_keys_ofItems {items : List (κ × α)} {key : κ} : key ∈ keys (ofItems items) ↔ key ∈ keys items := by
  rw [ofItems, mem_keys_foldl]
  simp [keys]

theorem foldl_append {d items : List (κ × α)} (h : (keys (d ++ items)).Nodup) :
    items.foldl (fun d item => set d item.1 item.2) d = d ++ items := by
  induction items generalizing d with
  | nil => rw [List.append_nil, List.foldl_nil]
  | cons f items ih =>
    have happend : d ++ f :: items = (d ++ [f]) ++ items := by rw [List.append_assoc, List.singleton_append]
    have hnew : get? d f.1 = none := by
      rw [← Option.not_isSome_iff_eq_none, ← mem_keys_iff]
      intro hmem
      rw [keys, List.map_append, List.map_cons, List.nodup_append] at h
      exact h.2.2 _ hmem _ List.mem_cons_self rfl
    rw [happend] at h ⊢
    rw [List.foldl_cons, set_absent hnew, ih h]

/-- A dict is what its items make. -/
theorem ofItems_self {d : List (κ × α)} (h : (keys d).Nodup) : ofItems d = d :=
  foldl_append (d := []) h

theorem nodup_setDefault {d : List (κ × α)} (h : (keys d).Nodup) (key : κ) (value : α) :
    (keys (setDefault d key value)).Nodup := by
  unfold setDefault
  split
  · exact h
  · exact nodup_set h key value

theorem mem_of_get? {d : List (κ × α)} {key : κ} {a : α} (h : get? d key = some a) : (key, a) ∈ d := by
  induction d with
  | nil => cases h
  | cons f d ih =>
    obtain ⟨k, b⟩ := f
    rw [get?_cons] at h
    split at h
    · rename_i hk
      cases h
      rw [hk]
      exact List.mem_cons_self ..
    · exact List.mem_cons_of_mem _ (ih h)

theorem get?_of_mem {d : List (κ × α)} (hd : (keys d).Nodup) {key : κ} {a : α} (h : (key, a) ∈ d) : get? d key = some a := by
  induction d with
  | nil => cases h
  | cons f d ih =>
    obtain ⟨k, b⟩ := f
    obtain ⟨hnew, hd⟩ := List.nodup_cons.mp hd
    rw [get?_cons]
    rcases List.mem_cons.mp h with h | h
    · cases h
      rw [if_pos rfl]
    · have hne : k ≠ key := by
        rintro rfl
        exact hnew (List.mem_map.mpr ⟨(k, a), h, rfl⟩)
      rw [if_neg hne, ih hd h]

/-! ## Every value, and the values of some keys -/

def mapValues (f : α → α) (d : List (κ × α)) : List (κ × α) := d.map fun item => (item.1, f item.2)

@[simp] theorem get?_mapValues (f : α → α) (d : List (κ × α)) (key : κ) :
    get? (mapValues f d) key = (get? d key).map f := by
  induction d with
  | nil => rfl
  | cons item d ih =>
    obtain ⟨k, a⟩ := item
    unfold mapValues at ih ⊢
    rw [List.map_cons, get?_cons, get?_cons, ih]
    split
    · rfl
    · rfl

/-- The dict of what `f` has for the keys. -/
def ofKeys (keys : List κ) (f : κ → Option α) : List (κ × α) := keys.filterMap fun key => (f key).map (key, ·)

theorem get?_ofKeys {keys : List κ} {f : κ → Option α} (h : ∀ key, (f key).isSome = true → key ∈ keys) (key : κ) :
    get? (ofKeys keys f) key = f key := by
  have hkeys : get? (ofKeys keys f) key = if key ∈ keys then f key else none := by
    clear h
    induction keys with
    | nil => rfl
    | cons k keys ih =>
      unfold ofKeys at ih ⊢
      rw [List.filterMap_cons]
      by_cases hk : k = key
      · subst hk
        cases hf : f k with
        | none => simp [hf, ih]
        | some a => simp [get?]
      · cases hf : f k with
        | none => simp [ih, Ne.symm hk]
        | some a => simp [get?, hk, ih, Ne.symm hk]
  rw [hkeys]
  split
  · rfl
  · rename_i hmem
    cases hf : f key with
    | none => rfl
    | some a => exact absurd (h key (by rw [hf]; rfl)) hmem

/-! ## One item at most -/

theorem get?_eq_singleton {d : List (κ × α)} (hd : d.length ≤ 1) {key : κ} {a : α} (h : get? d key = some a) :
    d = [(key, a)] := by
  rcases d with _ | ⟨item, _ | ⟨f, d⟩⟩
  · cases h
  · rw [List.mem_singleton.mp (mem_of_get? h)]
  · simp only [List.length_cons] at hd
    omega

@[simp] theorem set_singleton (key : κ) (a b : α) : set [(key, a)] key b = [(key, b)] := by
  rw [set_cons, if_pos rfl]

@[simp] theorem pop_singleton (key : κ) (a : α) : pop [(key, a)] key = [] := by
  simp [pop]

theorem length_pop_le (d : List (κ × α)) (key : κ) : (pop d key).length ≤ d.length := List.length_filter_le ..

theorem mem_pop {d : List (κ × α)} {key : κ} {item : κ × α} (h : item ∈ pop d key) : item ∈ d :=
  (List.mem_filter.mp h).1

/-! ## Items behind items -/

/-- The last value of a key counts, and what was there before where it has none. -/
theorem get?_foldl_set (items d : List (κ × α)) (k : κ) :
    get? (items.foldl (fun d item => set d item.1 item.2) d) k = (get? (ofItems items) k).or (get? d k) := by
  induction items generalizing d with
  | nil => rfl
  | cons f items ih =>
    have hrest : get? (ofItems (f :: items)) k = (get? (ofItems items) k).or (get? (set [] f.1 f.2) k) := ih _
    rw [List.foldl_cons, ih, hrest, get?_set, get?_set, Option.or_assoc]
    congr 1
    split
    · rfl
    · rfl

theorem get?_ofItems_append (a b : List (κ × α)) (k : κ) :
    get? (ofItems (a ++ b)) k = (get? (ofItems b) k).or (get? (ofItems a) k) := by
  rw [ofItems, List.foldl_append]
  exact get?_foldl_set b _ k

/-- Items that are set where their keys are missing. -/
theorem get?_foldl_setDefault (items d : List (κ × α)) (k : κ) :
    get? (items.foldl (fun d item => setDefault d item.1 item.2) d) k = (get? d k).or (get? items k) := by
  induction items generalizing d with
  | nil => simp [get?]
  | cons f items ih =>
    obtain ⟨key, value⟩ := f
    rw [List.foldl_cons, ih, get?_cons]
    unfold setDefault
    split
    · rename_i hthere
      obtain ⟨old, hold⟩ := Option.isSome_iff_exists.mp hthere
      split
      · rename_i heq
        rw [← heq, hold]
        rfl
      · rfl
    · rename_i hmissing
      have hnone : get? d key = none := Option.not_isSome_iff_eq_none.mp hmissing
      rw [get?_set]
      split
      · rename_i heq
        rw [← heq, hnone]
        rfl
      · rfl

end Errand.Lib.Dict

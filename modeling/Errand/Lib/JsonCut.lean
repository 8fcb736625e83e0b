import Errand.Lib.JsonRoundTrip

/-
  Errand.Lib.JsonCut — a JSON value is read no further than it goes.

  What the parser reads off the front of a text it reads whatever follows, and an object
  up to its closing brace.

  Rules:
  - `value_stable`, `value_obj_stable`.
  - `parse_cut`: cut short, and carried on with text that has no closing brace, the text
    of an object is no longer that of an object.
-/

namespace Errand.Lib

open Number

namespace Json

/-! ## A value is read no further than it goes -/

/-- What `p` reads, `q` reads too, whatever follows it. -/
def Stable {α : Type} (p q : List Char → Option (α × List Char)) : Prop :=
  ∀ s a r, p s = some (a, r) → ∃ c, s = c ++ r ∧ ∀ t, Ends t → q (c ++ t) = some (a, t)

theorem skipWs_split {s s' : List Char} {d : Char} (h : skipWs s = d :: s') :
    isWs d = false ∧ ∃ ws, s = ws ++ d :: s' ∧ ∀ c ∈ ws, isWs c = true := by
  unfold skipWs at h
  constructor
  · have hhead := List.head?_dropWhile_not isWs s
    rw [h] at hhead
    simpa using hhead
  · refine ⟨s.takeWhile isWs, ?_, fun c hc => List.mem_takeWhile_imp hc⟩
    rw [← h, List.takeWhile_append_dropWhile]

/-- White space before a token is skipped, and then the token is read. -/
theorem skipWs_token {ws : List Char} (h : ∀ c ∈ ws, isWs c = true) {d : Char} (hd : isWs d = false) (s : List Char) :
    skipWs (ws ++ d :: s) = d :: s := by rw [skipWs_pad h, skipWs_cons hd]

theorem ends_of_ws {ws : List Char} (h : ∀ c ∈ ws, isWs c = true) {d : Char} (hd : isAtomChar d = false) (s : List Char) :
    Ends (ws ++ d :: s) := by
  intro c hc
  cases ws with
  | nil =>
    cases hc
    exact hd
  | cons w ws =>
    cases hc
    have hw := h c (by simp)
    simp only [isWs, Bool.or_eq_true, beq_iff_eq] at hw
    rcases hw with ((rfl | rfl) | rfl) | rfl <;> rfl

theorem stringBody_stable (s : List Char) : ∀ (w : Within) (a r : List Char), stringBody w s = some (a, r) →
    ∃ c, s = c ++ r ∧ ∀ t, stringBody w (c ++ t) = some (a, t) := by
  induction s with
  | nil =>
    intro w a r h
    cases h
  | cons d s ih =>
    intro w a r h
    rw [stringBody] at h
    cases hadv : advance w d with
    | fail =>
      rw [hadv] at h
      cases h
    | closed =>
      rw [hadv] at h
      cases h
      refine ⟨[d], rfl, ?_⟩
      intro t
      rw [List.singleton_append, stringBody, hadv]
    | read cs w' =>
      rw [hadv] at h
      obtain ⟨⟨a', r'⟩, hrest, heq⟩ := Option.map_eq_some_iff.mp h
      cases heq
      obtain ⟨c, hc, ht⟩ := ih w' a' _ hrest
      refine ⟨d :: c, by rw [hc]; rfl, ?_⟩
      intro t
      rw [List.cons_append, stringBody_read hadv, ht]
      rfl

theorem sequence_stable {α : Type} {p q : List Char → Option (α × List Char)} (h : Stable p q) {close : Char}
    (hclose : isAtomChar close = false) : ∀ (n m : Nat) (s : List Char) (as : List α) (r : List Char), n ≤ m →
    sequence p close n s = some (as, r) →
    ∃ c, s = c ++ close :: r ∧ ∀ t, sequence q close m (c ++ close :: t) = some (as, t) := by
  intro n
  induction n with
  | zero =>
    intro m s as r _ hs
    cases hs
  | succ n ih =>
    intro m s as r hm hs
    obtain ⟨m, rfl⟩ : ∃ k, m = k + 1 := ⟨m - 1, by omega⟩
    rw [sequence] at hs
    split at hs
    · cases hs
    rename_i a s₁ ha
    obtain ⟨c, rfl, hc⟩ := h _ _ _ ha
    split at hs
    · cases hs
    rename_i d s₂ hd
    obtain ⟨hdws, ws, rfl, hws⟩ := skipWs_split hd
    split at hs
    · rename_i hcomma
      subst hcomma
      obtain ⟨⟨as', r'⟩, hrest, heq⟩ := Option.map_eq_some_iff.mp hs
      cases heq
      obtain ⟨c', rfl, hc'⟩ := ih m _ _ _ (by omega) hrest
      refine ⟨c ++ (ws ++ ',' :: c'), by simp, ?_⟩
      intro t
      have htext : c ++ (ws ++ ',' :: c') ++ close :: t = c ++ (ws ++ ',' :: (c' ++ close :: t)) := by simp
      rw [htext, sequence, hc _ (ends_of_ws hws (by decide) _)]
      simp only
      rw [skipWs_token hws (by decide)]
      simp only
      rw [if_pos trivial, hc']
      rfl
    split at hs
    · rename_i hne hd'
      subst hd'
      cases hs
      refine ⟨c ++ ws, by simp, ?_⟩
      intro t
      rw [List.append_assoc, sequence, hc _ (ends_of_ws hws hclose _)]
      simp only
      rw [skipWs_token hws hdws]
      simp only
      rw [if_neg hne, if_pos trivial]
    · cases hs

theorem container_stable {α : Type} {p q : List Char → Option (α × List Char)} (h : Stable p q) {close : Char}
    (hclose : isAtomChar close = false) {n m : Nat} {s r : List Char} {as : List α} (hm : n ≤ m)
    (hs : container p close n s = some (as, r)) :
    ∃ c, s = c ++ close :: r ∧ ∀ t, container q close m (c ++ close :: t) = some (as, t) := by
  rw [container] at hs
  split at hs
  · cases hs
  rename_i d s' hd
  obtain ⟨hdws, ws, rfl, hws⟩ := skipWs_split hd
  split at hs
  · rename_i hd'
    subst hd'
    cases hs
    refine ⟨ws, rfl, ?_⟩
    intro t
    rw [container, skipWs_token hws hdws]
    simp only
    rw [if_pos trivial]
  · rename_i hne
    obtain ⟨c, hc, hseq⟩ := sequence_stable h hclose n m _ _ _ hm hs
    -- the first item begins where the white space ends
    cases c with
    | nil =>
      cases hc
      exact absurd rfl hne
    | cons d' c =>
      cases hc
      refine ⟨ws ++ d :: c, by simp, ?_⟩
      intro t
      have htext : ws ++ d :: c ++ close :: t = ws ++ d :: (c ++ close :: t) := by simp
      rw [htext, container, skipWs_token hws hdws]
      simp only
      rw [if_neg hne]
      exact hseq t

theorem member_stable {p q : List Char → Option (Json × List Char)} (h : Stable p q) :
    Stable (member p) (member q) := by
  intro s f r hs
  rw [member] at hs
  split at hs
  · cases hs
  rename_i d s₁ hd
  obtain ⟨-, ws, rfl, hws⟩ := skipWs_split hd
  split at hs
  · rename_i hd'
    subst hd'
    split at hs
    · cases hs
    rename_i k s₂ hk
    obtain ⟨ck, rfl, hck⟩ := stringBody_stable _ _ _ _ hk
    split at hs
    · cases hs
    rename_i d' s₃ hd'
    obtain ⟨-, ws', rfl, hws'⟩ := skipWs_split hd'
    split at hs
    · rename_i hcolon
      subst hcolon
      obtain ⟨⟨j, r'⟩, hj, heq⟩ := Option.map_eq_some_iff.mp hs
      cases heq
      obtain ⟨c, rfl, hc⟩ := h _ _ _ hj
      refine ⟨ws ++ '"' :: (ck ++ (ws' ++ ':' :: c)), by simp, ?_⟩
      intro t ht
      have htext : ws ++ '"' :: (ck ++ (ws' ++ ':' :: c)) ++ t = ws ++ '"' :: (ck ++ (ws' ++ ':' :: (c ++ t))) := by simp
      rw [htext, member, skipWs_token hws (by decide)]
      simp only
      rw [if_pos trivial, hck]
      simp only
      rw [skipWs_token hws' (by decide)]
      simp only
      rw [if_pos trivial, hc t ht]
      rfl
    · cases hs
  · cases hs

theorem value_stable : ∀ n m, n ≤ m → Stable (value n) (value m) := by
  intro n
  induction n with
  | zero =>
    intro m _ s j r hs
    cases hs
  | succ n ih =>
    intro m hm s j r hs
    obtain ⟨m, rfl⟩ : ∃ k, m = k + 1 := ⟨m - 1, by omega⟩
    have hnm : n ≤ m := by omega
    rw [value] at hs
    split at hs
    · cases hs
    rename_i d s₁ hd
    obtain ⟨hdws, ws, rfl, hws⟩ := skipWs_split hd
    split at hs
    · rename_i hquote
      subst hquote
      obtain ⟨⟨a, r'⟩, ha, heq⟩ := Option.map_eq_some_iff.mp hs
      cases heq
      obtain ⟨c, rfl, hc⟩ := stringBody_stable _ _ _ _ ha
      refine ⟨ws ++ '"' :: c, by simp, ?_⟩
      intro t _
      rw [List.append_assoc, value, List.cons_append, skipWs_token hws hdws]
      simp only
      rw [if_pos trivial, hc]
      rfl
    rename_i hquote
    split at hs
    · rename_i hopen
      subst hopen
      obtain ⟨⟨as, r'⟩, ha, heq⟩ := Option.map_eq_some_iff.mp hs
      cases heq
      obtain ⟨c, rfl, hc⟩ := container_stable (ih m hnm) (by decide) hnm ha
      refine ⟨ws ++ '[' :: (c ++ [']']), by simp, ?_⟩
      intro t _
      have htext : ws ++ '[' :: (c ++ [']']) ++ t = ws ++ '[' :: (c ++ ']' :: t) := by simp
      rw [htext, value, skipWs_token hws hdws]
      simp only
      rw [if_neg hquote, if_pos trivial, hc]
      rfl
    rename_i hopen
    split at hs
    · rename_i hbrace
      subst hbrace
      obtain ⟨⟨as, r'⟩, ha, heq⟩ := Option.map_eq_some_iff.mp hs
      cases heq
      obtain ⟨c, rfl, hc⟩ := container_stable (member_stable (ih m hnm)) (by decide) hnm ha
      refine ⟨ws ++ '{' :: (c ++ ['}']), by simp, ?_⟩
      intro t _
      have htext : ws ++ '{' :: (c ++ ['}']) ++ t = ws ++ '{' :: (c ++ '}' :: t) := by simp
      rw [htext, value, skipWs_token hws hdws]
      simp only
      rw [if_neg hquote, if_neg hopen, if_pos trivial, hc]
      rfl
    rename_i hbrace
    obtain ⟨j', hj, heq⟩ := Option.map_eq_some_iff.mp hs
    cases heq
    have hatom : isAtomChar d = true := by
      cases hda : isAtomChar d with
      | true => rfl
      | false =>
        rw [List.takeWhile_cons_of_neg (by simp [hda])] at hj
        cases hj
    refine ⟨ws ++ (d :: s₁).takeWhile isAtomChar, ?_, ?_⟩
    · rw [List.append_assoc, List.takeWhile_append_dropWhile]
    · intro t ht
      have hrun : PyStr.splitRun isAtomChar ((d :: s₁).takeWhile isAtomChar ++ t) =
          ((d :: s₁).takeWhile isAtomChar, t) :=
        PyStr.splitRun_append (fun c hc => List.mem_takeWhile_imp hc) ht
      obtain ⟨htake, hdrop⟩ := Prod.mk.inj hrun
      rw [List.takeWhile_cons_of_pos hatom, List.cons_append] at htake hdrop
      rw [List.append_assoc, value, List.takeWhile_cons_of_pos hatom, List.cons_append, skipWs_token hws hdws]
      simp only
      rw [if_neg hquote, if_neg hopen, if_neg hbrace, htake, hdrop, ← List.takeWhile_cons_of_pos hatom, hj]
      rfl

/-- An object is read up to its closing brace, whatever follows. -/
theorem value_obj_stable {n : Nat} {s r : List Char} {fs : List (String × Json)} (h : value n s = some (.obj fs, r)) :
    ∃ c, s = c ++ '}' :: r ∧ ∀ m t, n ≤ m → value m (c ++ '}' :: t) = some (.obj fs, t) := by
  cases n with
  | zero => cases h
  | succ n =>
    rw [value] at h
    split at h
    · cases h
    rename_i d s₁ hd
    obtain ⟨hdws, ws, rfl, hws⟩ := skipWs_split hd
    split at h
    · obtain ⟨x, -, hx⟩ := Option.map_eq_some_iff.mp h
      cases hx
    split at h
    · obtain ⟨x, -, hx⟩ := Option.map_eq_some_iff.mp h
      cases hx
    split at h
    · rename_i hquote hopen hbrace
      subst hbrace
      obtain ⟨⟨as, r'⟩, ha, heq⟩ := Option.map_eq_some_iff.mp h
      cases heq
      obtain ⟨c, rfl, -⟩ := container_stable (member_stable (value_stable n n (Nat.le_refl n))) (by decide) (Nat.le_refl n) ha
      refine ⟨ws ++ '{' :: c, by simp, ?_⟩
      intro m t hm
      obtain ⟨m, rfl⟩ : ∃ k, m = k + 1 := ⟨m - 1, by omega⟩
      have hnm : n ≤ m := by omega
      obtain ⟨c', hc', hc⟩ := container_stable (member_stable (value_stable n m hnm)) (by decide) hnm ha
      have hcc : c = c' := List.append_cancel_right hc'
      subst hcc
      have htext : ws ++ '{' :: c ++ '}' :: t = ws ++ '{' :: (c ++ '}' :: t) := by simp
      rw [htext, value, skipWs_token hws (by decide)]
      simp only
      rw [if_neg hquote, if_neg hopen, if_pos trivial, hc]
      rfl
    · obtain ⟨j, hj, hx⟩ := Option.map_eq_some_iff.mp h
      cases hx
      unfold atom? at hj
      repeat' split at hj
      all_goals cases hj

theorem parse_obj {s : List Char} {fs : List (String × Json)} (h : parse s = some (.obj fs)) :
    ∃ r, value (s.length + 1) s = some (.obj fs, r) ∧ skipWs r = [] := by
  unfold parse at h
  split at h
  · rename_i j r hv
    split at h
    · rename_i hr
      cases h
      exact ⟨r, hv, List.isEmpty_iff.mp hr⟩
    · cases h
  · cases h

/-- The text of an object has a closing brace. -/
theorem parse_obj_mem {s : List Char} {fs : List (String × Json)} (h : parse s = some (.obj fs)) : '}' ∈ s := by
  obtain ⟨r, hv, -⟩ := parse_obj h
  obtain ⟨c, hc, -⟩ := value_obj_stable hv
  rw [hc]
  simp

/-- Cut short, and carried on with text that has no closing brace, the text of an object
    is no longer that of an object. -/
theorem parse_cut {p t u : List Char} {fs fs' : List (String × Json)} (h : parse (p ++ t) = some (.obj fs))
    (hlast : t.getLast? = some '}') (hu : '}' ∉ u) : parse (p ++ u) ≠ some (.obj fs') := by
  intro hcut
  obtain ⟨r, hv, hr⟩ := parse_obj h
  obtain ⟨r', hv', -⟩ := parse_obj hcut
  obtain ⟨c, hc, hfar⟩ := value_obj_stable hv
  obtain ⟨c', hc', hfar'⟩ := value_obj_stable hv'
  -- the object that was cut closes before the cut
  obtain ⟨b, rfl⟩ : ∃ b, p = c' ++ '}' :: b := by
    rcases List.append_eq_append_iff.mp hc' with ⟨a, -, ha⟩ | ⟨a, ha, hu'⟩
    · exact absurd (by rw [ha]; simp) hu
    · cases a with
      | nil => exact absurd (by rw [← List.nil_append u, ← hu']; simp) hu
      | cons x b =>
        cases hu'
        exact ⟨b, ha⟩
  have htext : c' ++ '}' :: b ++ t = c' ++ '}' :: (b ++ t) := by simp
  have hwhole := hfar (max ((c' ++ '}' :: b ++ t).length + 1) ((c' ++ '}' :: b ++ u).length + 1)) r (le_max_left _ _)
  rw [← hc, htext, hfar' _ _ (le_max_right _ _), Option.some.injEq, Prod.mk.injEq] at hwhole
  -- so the rest of the whole is what was cut off, and that is no white space
  rw [← hwhole.2] at hr
  have hbrace : '}' ∈ b ++ t := List.mem_append_right _ (List.mem_of_getLast? hlast)
  exact absurd (List.dropWhile_eq_nil_iff.mp hr _ hbrace) (by decide)

end Json

end Errand.Lib

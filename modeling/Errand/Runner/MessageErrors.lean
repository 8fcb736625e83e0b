import Errand.Runner.Messages

/-
  Errand.Runner.MessageErrors — which messages the sanitiser and the context snapshot raise
  on (`_sanitize_tool_calls`, `_context_contributors`, task-runner/main.py).

  Both look ids up, so one they look up must be hashable, and join the texts of a content
  list, so those must be texts. The sanitiser catches a decode error of `json.loads` and
  nothing else it raises.

  Proved:
  - `contextContributors_returns_iff`: the snapshot raises nothing exactly if every id can
    be looked up (`Identified`).
  - `sanitizeToolCalls_returns_iff`: what the sanitiser needs of calls and results
    (`Sanitizes`).
-/

namespace Errand.Runner.Messages

open Errand.Lib

/-! ## Texts and ids -/

/-- `json.loads` reads the text, or finds it malformed. -/
def Readable (py : Python) (s : String) : Prop := py.loads s ≠ .valueError ∧ py.loads s ≠ .recursionError

/-- It can be hashed. -/
def IsKey (j : Json) : Prop := j.key?.isSome = true

/-- The text parts of a list have texts. -/
def Textual (j : Json) : Prop :=
  ∀ parts, j = .arr parts → ∀ part ∈ parts, part.fieldIs "type" "text" = true →
    ∃ text, getD part "text" (.str "") = .str text

theorem textual_cons {part : Json} {parts : List Json} :
    Textual (.arr (part :: parts)) ↔
      (part.fieldIs "type" "text" = true → ∃ text, getD part "text" (.str "") = .str text) ∧ Textual (.arr parts) := by
  constructor
  · intro h
    exact ⟨h _ rfl part (List.mem_cons_self ..), fun l hl p hp => h _ rfl p (by cases hl; exact List.mem_cons_of_mem _ hp)⟩
  · intro h l hl p hp
    cases hl
    rcases List.mem_cons.mp hp with rfl | hp
    · exact h.1
    · exact h.2 _ rfl p hp

theorem textual_nil : Textual (.arr []) := by
  intro parts hparts part hpart
  cases hparts
  cases hpart

theorem joinTexts_returns_iff (parts : List Json) : Returns (joinTexts parts) ↔ Textual (.arr parts) := by
  induction parts with
  | nil => exact iff_of_true (returns_ok _) textual_nil
  | cons part parts ih =>
    rw [textual_cons, ← ih, joinTexts]
    by_cases htype : part.fieldIs "type" "text" = true
    · rw [if_pos htype, imp_iff_right htype]
      cases getD part "text" (.str "") with
      | str text => cases joinTexts parts <;> simp
      | _ => simp
    · rw [if_neg htype]
      exact ⟨fun h => ⟨fun ht => absurd ht htype, h⟩, fun h => h.2⟩

theorem contentText_returns_iff (py : Python) (j : Json) : Returns (contentText py j) ↔ Textual j := by
  cases j with
  | arr parts => rw [contentText, returns_map, joinTexts_returns_iff]
  | _ =>
    refine iff_of_true (returns_ok _) ?_
    intro parts hparts
    cases hparts

/-! ## The snapshot -/

/-- The ids of the messages can be looked up. -/
def Identified (messages : List Json) : Prop :=
  ∀ m ∈ messages,
    (isFunctionCall m = true → (getD m "call_id" .null).truthy = true → IsKey (getD m "call_id" .null)) ∧
      (isFunctionCallOutput m = true → IsKey (getD m "call_id" .null))

theorem toolNames_returns_iff (messages : List Json) : Returns (toolNames messages) ↔
    ∀ m ∈ messages, isFunctionCall m = true → (getD m "call_id" .null).truthy = true →
      IsKey (getD m "call_id" .null) := by
  induction messages with
  | nil => simp [toolNames]
  | cons m messages ih =>
    rw [List.forall_mem_cons, ← ih, toolNames]
    simp only [Bool.and_eq_true, IsKey]
    split
    · rename_i hm
      rw [imp_iff_right hm.1, imp_iff_right hm.2]
      cases (getD m "call_id" .null).key? with
      | none => simp
      | some id => cases toolNames messages <;> simp
    · rename_i hm
      exact ⟨fun h => ⟨fun hc ht => absurd ⟨hc, ht⟩ hm, h⟩, fun h => h.2⟩

theorem output_not_call {m : Json} (h : isFunctionCallOutput m = true) : isFunctionCall m = false := by
  unfold isFunctionCallOutput Json.fieldIs at h
  unfold isFunctionCall Json.fieldIs
  split at h
  · rename_i t ht
    rw [beq_iff_eq] at h
    rw [h]
    decide
  · cases h

theorem contributor_returns_iff (py : Python) (names : List (Json.Key × Json)) (m : Json) :
    Returns (contributor py names m) ↔ (isFunctionCallOutput m = true → IsKey (getD m "call_id" .null)) := by
  unfold contributor
  split
  · rename_i fields
    simp only
    split
    · rename_i hcall
      refine iff_of_true (returns_ok _) ?_
      intro hout
      rw [output_not_call hout] at hcall
      cases hcall
    · split
      · rename_i hout
        rw [imp_iff_right hout, IsKey]
        cases (getD (.obj fields) "call_id" .null).key? <;> simp
      · rename_i hout
        exact iff_of_true (returns_ok _) fun h => absurd h hout
  · rename_i hobj
    refine iff_of_true (returns_ok _) ?_
    intro hout
    cases m with
    | obj fields => exact absurd rfl (hobj fields)
    | _ => cases hout

theorem contributors_returns_iff (py : Python) {names : List (Json.Key × Json)} (messages : List Json) :
    Returns (contributors py names messages) ↔
      ∀ m ∈ messages, isFunctionCallOutput m = true → IsKey (getD m "call_id" .null) := by
  induction messages with
  | nil => simp [contributors]
  | cons m messages ih =>
    rw [List.forall_mem_cons, ← ih, ← contributor_returns_iff py names m, contributors]
    cases contributor py names m <;> simp

theorem contextContributors_returns_iff (py : Python) (messages : List Json) :
    Returns (contextContributors py messages) ↔ Identified messages := by
  have hids : Identified messages ↔ Returns (toolNames messages) ∧
      ∀ m ∈ messages, isFunctionCallOutput m = true → IsKey (getD m "call_id" .null) := by
    rw [toolNames_returns_iff, Identified, ← forall₂_and]
  rw [hids]
  unfold contextContributors
  cases toolNames messages with
  | error e => simp
  | ok names => simp [contributors_returns_iff]

/-! ## One call -/

/-- A call's malformed arguments are a text that is JSON once it is closed. -/
def Repaired (py : Python) (args : String) : Prop :=
  py.loads args = .decodeError ∧ (PyStr.strip args.toList).isEmpty = false ∧
    ∃ j, py.loads (String.ofList (closedText args.toList)) = .value j

/-- A call whose arguments are repaired, and the id its result is told under. -/
def RepairedUnder (py : Python) (id : Json.Key) (m : Json) : Prop :=
  isFunctionCall m = true ∧ (∃ args, m.get? "arguments" = some (.str args) ∧ args ≠ "" ∧ Repaired py args) ∧
    (getD m "call_id" (.str "")).truthy = true ∧ (getD m "call_id" (.str "")).key? = some id

/-- The call's arguments can be read, and closed and read again, and the id of a repaired
    call can be looked up. -/
def CallSanitizes (py : Python) (m : Json) : Prop :=
  isFunctionCall m = true → ∀ args, m.get? "arguments" = some (.str args) → args ≠ "" →
    Readable py args ∧
      (py.loads args = .decodeError → (PyStr.strip args.toList).isEmpty = false →
        Readable py (String.ofList (closedText args.toList))) ∧
      (Repaired py args → (getD m "call_id" (.str "")).truthy = true → IsKey (getD m "call_id" (.str "")))

/-- Every call can be sanitised; and if one is repaired, every result's id can be looked
    up and the text parts of its own result have texts. -/
structure Sanitizes (py : Python) (messages : List Json) : Prop where
  calls : ∀ m ∈ messages, CallSanitizes py m
  outputs : (∃ id, ∃ m ∈ messages, RepairedUnder py id m) → ∀ m ∈ messages, isFunctionCallOutput m = true →
    ∃ id, (getD m "call_id" (.str "")).key? = some id ∧
      ((∃ m' ∈ messages, RepairedUnder py id m') → Textual (getD m "output" (.str "")))

/-- What repairing the arguments gives, for a text that has been found malformed. -/
theorem repairTruncatedJson_malformed {py : Python} {args : String} (h : py.loads args = .decodeError) :
    (Returns (repairTruncatedJson py args) ↔ ((PyStr.strip args.toList).isEmpty = false →
      Readable py (String.ofList (closedText args.toList)))) ∧
    ∀ r, repairTruncatedJson py args = .ok r → (r.isSome = true ↔ Repaired py args) := by
  unfold repairTruncatedJson Repaired Readable
  cases hs : (PyStr.strip args.toList).isEmpty with
  | true =>
    simp only [if_true]
    refine ⟨iff_of_true (returns_ok _) (by intro hf; cases hf), ?_⟩
    intro r hr
    cases hr
    simp
  | false =>
    rw [if_neg (by decide), parses, h]
    simp only [parses]
    cases hl : py.loads (String.ofList (closedText args.toList)) with
    | value j =>
      refine ⟨by simp, ?_⟩
      intro r hr
      cases hr
      simp
    | decodeError =>
      refine ⟨by simp, ?_⟩
      intro r hr
      cases hr
      simp
    | valueError => exact ⟨by simp, by intro r hr; cases hr⟩
    | recursionError => exact ⟨by simp, by intro r hr; cases hr⟩

/-- A call that is left as it is. -/
theorem sanitizeCall_kept {py : Python} {m : Json} (h : sanitizeCall py m = .ok (m, []))
    (hno : ∀ args, m.get? "arguments" = some (.str args) → args ≠ "" → isFunctionCall m = true →
      Readable py args ∧ py.loads args ≠ .decodeError) :
    (Returns (sanitizeCall py m) ↔ CallSanitizes py m) ∧
      ∀ m' ids, sanitizeCall py m = .ok (m', ids) → ∀ id, id ∈ ids.map (·.1) ↔ RepairedUnder py id m := by
  refine ⟨iff_of_true ⟨_, h⟩ ?_, ?_⟩
  · intro hcall args hargs hne
    obtain ⟨hread, hdec⟩ := hno args hargs hne hcall
    exact ⟨hread, fun hd => absurd hd hdec, fun hr => absurd hr.1 hdec⟩
  · intro m' ids hok id
    rw [h] at hok
    cases hok
    refine iff_of_false List.not_mem_nil ?_
    intro hr
    obtain ⟨hcall, ⟨args, hargs, hne, hd, -⟩, -⟩ := hr
    exact (hno args hargs hne hcall).2 hd

theorem sanitizeCall_spec (py : Python) (m : Json) :
    (Returns (sanitizeCall py m) ↔ CallSanitizes py m) ∧
      ∀ m' ids, sanitizeCall py m = .ok (m', ids) → ∀ id, id ∈ ids.map (·.1) ↔ RepairedUnder py id m := by
  cases hcall : isFunctionCall m with
  | false =>
    apply sanitizeCall_kept
    · rw [sanitizeCall, hcall]
      rfl
    · intro args hargs hne hc
      rw [hcall] at hc
      cases hc
  | true =>
    -- all but a text is left alone
    by_cases hargs : ∃ args, m.get? "arguments" = some (.str args) ∧ args ≠ ""
    · obtain ⟨args, hargs, hne⟩ := hargs
      have hempty : args.isEmpty = false := by simpa using hne
      have only : ∀ args', m.get? "arguments" = some (.str args') → args' = args := by
        intro args' ha
        rw [hargs] at ha
        cases ha
        rfl
      have hstep := sanitizeCall.eq_1 py m
      simp only [hcall, hargs, hempty, Bool.not_true, Bool.false_eq_true, if_false] at hstep
      cases hl : py.loads args with
      | value j =>
        apply sanitizeCall_kept
        · rw [hstep, parses, hl]
        · intro args' ha _ _
          rw [only args' ha, Readable, hl]
          simp
      | valueError =>
        have herr : sanitizeCall py m = .error .valueError := by rw [hstep, parses, hl]
        rw [herr]
        refine ⟨iff_of_false (not_returns_error _) ?_, by intro m' ids hok; cases hok⟩
        intro h
        exact (h hcall args hargs hne).1.1 hl
      | recursionError =>
        have herr : sanitizeCall py m = .error .recursionError := by rw [hstep, parses, hl]
        rw [herr]
        refine ⟨iff_of_false (not_returns_error _) ?_, by intro m' ids hok; cases hok⟩
        intro h
        exact (h hcall args hargs hne).1.2 hl
      | decodeError =>
        obtain ⟨hret, hsome⟩ := repairTruncatedJson_malformed hl
        have hread : Readable py args := by rw [Readable, hl]; simp
        have hcond : CallSanitizes py m ↔ Returns (repairTruncatedJson py args) ∧
            (Repaired py args → (getD m "call_id" (.str "")).truthy = true → IsKey (getD m "call_id" (.str ""))) := by
          rw [hret]
          constructor
          · intro h
            obtain ⟨-, hclosed, hid⟩ := h hcall args hargs hne
            exact ⟨hclosed hl, hid⟩
          · intro h _ args' ha _
            cases only args' ha
            exact ⟨hread, fun _ => h.1, h.2⟩
        have hunder : ∀ id, RepairedUnder py id m ↔ Repaired py args ∧
            (getD m "call_id" (.str "")).truthy = true ∧ (getD m "call_id" (.str "")).key? = some id := by
          intro id
          constructor
          · intro h
            obtain ⟨-, ⟨args', ha, -, hr⟩, hid⟩ := h
            cases only args' ha
            exact ⟨hr, hid⟩
          · intro h
            exact ⟨hcall, ⟨args, hargs, hne, h.1⟩, h.2⟩
        rw [hcond, hstep, parses, hl]
        simp only
        cases hr : repairTruncatedJson py args with
        | error e => exact ⟨by simp, by intro m' ids hok; cases hok⟩
        | ok r =>
          have hsome := hsome r hr
          cases r with
          | none =>
            have hno : ¬ Repaired py args := fun h => by
              have := hsome.mpr h
              cases this
            refine ⟨iff_of_true (returns_ok _) ⟨returns_ok _, fun h => absurd h hno⟩, ?_⟩
            intro m' ids hok id
            cases hok
            rw [hunder]
            simp [hno]
          | some repaired =>
            have hyes : Repaired py args := hsome.mp rfl
            simp only
            cases ht : (getD m "call_id" (.str "")).truthy with
            | false =>
              rw [if_neg (by decide)]
              refine ⟨iff_of_true (returns_ok _) ⟨returns_ok _, fun _ h => by cases h⟩, ?_⟩
              intro m' ids hok id
              cases hok
              rw [hunder, ht]
              simp
            | true =>
              rw [if_pos rfl]
              cases hk : (getD m "call_id" (.str "")).key? with
              | none =>
                refine ⟨iff_of_false (not_returns_error _) ?_, by intro m' ids hok; cases hok⟩
                intro h
                have hh := h.2 hyes rfl
                rw [IsKey, hk] at hh
                cases hh
              | some id =>
                refine ⟨iff_of_true (returns_ok _) ⟨returns_ok _, fun _ _ => by rw [IsKey, hk]; rfl⟩, ?_⟩
                intro m' ids hok id'
                cases hok
                rw [hunder, ht, hk]
                simp [hyes, eq_comm]
    · apply sanitizeCall_kept
      · unfold sanitizeCall
        rw [hcall]
        simp only [Bool.not_true, Bool.false_eq_true, if_false]
        split
        · rename_i args ha
          split
          · rfl
          · rename_i hne
            exact absurd ⟨args, ha, by simpa using hne⟩ hargs
        · rfl
      · intro args ha hne _
        exact absurd ⟨args, ha, hne⟩ hargs

/-! ## The sanitiser -/

theorem sanitizeCalls_spec (py : Python) (messages : List Json) :
    (Returns (sanitizeCalls py messages) ↔ ∀ m ∈ messages, CallSanitizes py m) ∧
      ∀ messages' ids, sanitizeCalls py messages = .ok (messages', ids) →
        ∀ id, id ∈ ids.map (·.1) ↔ ∃ m ∈ messages, RepairedUnder py id m := by
  induction messages with
  | nil =>
    refine ⟨iff_of_true (returns_ok _) (List.forall_mem_nil _), ?_⟩
    intro messages' ids hok id
    cases hok
    simp
  | cons m messages ih =>
    obtain ⟨hret, hids⟩ := ih
    obtain ⟨hretm, hidsm⟩ := sanitizeCall_spec py m
    rw [List.forall_mem_cons, ← hretm, ← hret, sanitizeCalls]
    cases hm : sanitizeCall py m with
    | error e => exact ⟨by simp, by intro messages' ids hok; cases hok⟩
    | ok r =>
      cases hrest : sanitizeCalls py messages with
      | error e => exact ⟨by simp, by intro messages' ids hok; cases hok⟩
      | ok rest =>
        refine ⟨by simp, ?_⟩
        intro messages' ids hok id
        cases hok
        rw [List.map_append, List.mem_append, hidsm _ _ hm, hids _ _ hrest]
        simp

theorem isFunctionCall_of_kind {m : Json} {id : Option Json} (h : kind m = .call id) : isFunctionCall m = true := by
  unfold kind at h
  split at h
  · rename_i hcall
    exact hcall
  · split at h <;> cases h

/-- A call stays a call, and all else stays as it is. -/
theorem sanitizeCall_output {py : Python} {m m' : Json} {ids : List (Json.Key × Json)}
    (h : sanitizeCall py m = .ok (m', ids)) : [m'].filter isFunctionCallOutput = [m].filter isFunctionCallOutput := by
  have hno : ∀ x : Json, isFunctionCall x = true → isFunctionCallOutput x = false := by
    intro x hx
    by_contra hout
    rw [Bool.not_eq_false] at hout
    rw [output_not_call hout] at hx
    cases hx
  cases hcall : isFunctionCall m with
  | false =>
    rw [sanitizeCall, hcall] at h
    cases h
    rfl
  | true =>
    have hk := sanitizeCall_kind h
    have hcall' : isFunctionCall m' = true := by
      have hkind : kind m' = .call (m.get? "call_id") := by rw [hk, kind, if_pos hcall]
      exact isFunctionCall_of_kind hkind
    simp [hno m hcall, hno m' hcall']

theorem sanitizeCalls_outputs {py : Python} {messages messages' : List Json} {ids : List (Json.Key × Json)}
    (h : sanitizeCalls py messages = .ok (messages', ids)) :
    messages'.filter isFunctionCallOutput = messages.filter isFunctionCallOutput := by
  induction messages generalizing messages' ids with
  | nil => cases h; rfl
  | cons m messages ih =>
    unfold sanitizeCalls at h
    split at h
    · cases h
    · rename_i m' ids₁ hm
      split at h
      · cases h
      · rename_i rest ids₂ hrest
        cases h
        have happ : ∀ (x : Json) (l : List Json), (x :: l).filter isFunctionCallOutput =
            [x].filter isFunctionCallOutput ++ l.filter isFunctionCallOutput := by
          intro x l
          rw [← List.filter_append]
          rfl
        rw [happ m', happ m, sanitizeCall_output hm, ih hrest]

theorem recoverOutput_returns_iff (py : Python) {ids : List (Json.Key × Json)} (m : Json) :
    Returns (recoverOutput py ids m) ↔ (isFunctionCallOutput m = true →
      ∃ id, (getD m "call_id" (.str "")).key? = some id ∧
        (id ∈ ids.map (·.1) → Textual (getD m "output" (.str "")))) := by
  unfold recoverOutput
  cases hout : isFunctionCallOutput m with
  | false => simp
  | true =>
    rw [imp_iff_right rfl]
    cases (getD m "call_id" (.str "")).key? with
    | none => simp
    | some id =>
      have hfind : ids.reverse.find? (·.1 == id) = none ↔ id ∉ ids.map (·.1) := by
        rw [List.find?_eq_none, List.mem_map]
        constructor
        · intro h hid
          obtain ⟨pair, hp, he⟩ := hid
          exact h pair (List.mem_reverse.mpr hp) (beq_iff_eq.mpr he)
        · intro h pair hp he
          exact h ⟨pair, List.mem_reverse.mp hp, beq_iff_eq.mp he⟩
      simp only [Option.some.injEq, exists_eq_left', Bool.not_true, Bool.false_eq_true, if_false]
      cases hf : ids.reverse.find? (·.1 == id) with
      | none => exact iff_of_true (returns_ok _) fun hid => absurd hid (hfind.mp hf)
      | some pair =>
        have hid : id ∈ ids.map (·.1) := by
          by_contra hn
          rw [hfind.mpr hn] at hf
          cases hf
        rw [imp_iff_right hid, ← contentText_returns_iff py]
        simp only
        cases contentText py (getD m "output" (.str "")) <;> simp

theorem recoverOutputs_returns_iff (py : Python) {ids : List (Json.Key × Json)} (messages : List Json) :
    Returns (recoverOutputs py ids messages) ↔ ∀ m ∈ messages, isFunctionCallOutput m = true →
      ∃ id, (getD m "call_id" (.str "")).key? = some id ∧
        (id ∈ ids.map (·.1) → Textual (getD m "output" (.str ""))) := by
  induction messages with
  | nil => exact iff_of_true (returns_ok _) (List.forall_mem_nil _)
  | cons m messages ih =>
    rw [List.forall_mem_cons, ← ih, ← recoverOutput_returns_iff py m, recoverOutputs]
    cases recoverOutput py ids m <;> cases recoverOutputs py ids messages <;> simp

theorem sanitizeToolCalls_returns_iff {py : Python} (messages : List Json) :
    Returns (sanitizeToolCalls py messages) ↔ Sanitizes py messages := by
  obtain ⟨hret, hids⟩ := sanitizeCalls_spec py messages
  have hstruct : Sanitizes py messages ↔ Returns (sanitizeCalls py messages) ∧
      ((∃ id, ∃ m ∈ messages, RepairedUnder py id m) → ∀ m ∈ messages, isFunctionCallOutput m = true →
        ∃ id, (getD m "call_id" (.str "")).key? = some id ∧
          ((∃ m' ∈ messages, RepairedUnder py id m') → Textual (getD m "output" (.str "")))) := by
    rw [hret]
    exact ⟨fun h => ⟨h.calls, h.outputs⟩, fun h => ⟨h.1, h.2⟩⟩
  rw [hstruct]
  unfold sanitizeToolCalls
  cases hs : sanitizeCalls py messages with
  | error e => simp
  | ok r =>
    obtain ⟨messages', ids⟩ := r
    have hids := hids messages' ids hs
    rw [and_iff_right (returns_ok _)]
    simp only [← hids]
    cases ids with
    | nil =>
      refine iff_of_true (returns_ok _) ?_
      intro h
      obtain ⟨id, hid⟩ := h
      cases hid
    | cons pair ids =>
      have hsome : ∃ id, id ∈ (pair :: ids).map (·.1) := ⟨pair.1, List.mem_cons_self ..⟩
      rw [imp_iff_right hsome, List.isEmpty_cons, if_neg (by decide), recoverOutputs_returns_iff]
      have houtputs := sanitizeCalls_outputs hs
      have hmem : ∀ m, m ∈ messages' ∧ isFunctionCallOutput m = true ↔ m ∈ messages ∧ isFunctionCallOutput m = true := by
        intro m
        rw [← List.mem_filter, ← List.mem_filter, houtputs]
      constructor
      · intro h m hm hout
        exact h m ((hmem m).mpr ⟨hm, hout⟩).1 hout
      · intro h m hm hout
        exact h m ((hmem m).mp ⟨hm, hout⟩).1 hout

end Errand.Runner.Messages

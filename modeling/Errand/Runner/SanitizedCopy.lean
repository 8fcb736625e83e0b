import Errand.Lib.Heap
import Errand.Lib.JsonRoundTrip
import Errand.Runner.MessageErrors

/-
  Errand.Runner.SanitizedCopy — the sanitiser as it runs, on a list of shared objects
  (`_sanitize_tool_calls`, task-runner/main.py).

  A message is a cell; two positions of the list may hold the same one. The first loop looks
  at the list it is given and writes to a deep copy, made when the first malformed call is
  met; the second loop goes over the copy. What it does to one message is `Messages.sanitizeCall`
  and `Messages.recoverOutput`.

  Proved: `sanitizes_iff` — it returns, and what it returns is the list with malformed calls
  and the results of repaired ones replaced, every call readable, the given list untouched,
  and a second run without effect, exactly if `Messages.Sanitizes`: whatever `json.loads` makes
  of an argument text, it raises only decode errors, and the ids that are looked up can be.
  `a_huge_integer_is_raised_on` is the rest.
-/

namespace Errand.Runner.SanitizedCopy

open Errand.Lib Errand.Runner.Messages

/-! ## The loops -/

/-- The argument text of a call, if there is one and it is no JSON. -/
def malformed (py : Python) (m : Json) : Except PyError (Option String) :=
  if !isFunctionCall m then .ok none
  else
    match m.get? "arguments" with
    | some (.str args) => if args.isEmpty then .ok none else (parses py args).map fun ok => if ok then none else some args
    | _ => .ok none

/-- What to put in its place, and the id and tool name to tell its result. -/
def replacement (py : Python) (m : Json) (args : String) : Except PyError (String × List (Json.Key × Json)) :=
  match repairTruncatedJson py args with
  | .error e => .error e
  | .ok (some repaired) =>
    let callId := getD m "call_id" (.str "")
    if callId.truthy then
      match callId.key? with
      | some id => .ok (repaired, [(id, getD m "name" (.str "unknown"))])
      | none => .error .typeError
    else .ok (repaired, [])
  | .ok none => .ok (String.ofList (Json.dumps (errorPlaceholder (args.toList.take 200))), [])

structure Pass where
  heap : Heap Json
  result : List Ref
  mutated : Bool
  ids : List (Json.Key × Json)

/-- `if not mutated: result = copy.deepcopy(messages)`. -/
def Pass.copied (messages : List Ref) (p : Pass) : Pass :=
  if p.mutated then p
  else { p with heap := (p.heap.deepcopy messages).1, result := (p.heap.deepcopy messages).2, mutated := true }

/-- `d[key] = value` on the object of a cell. -/
def setItem (h : Heap Json) (r : Ref) (key : String) (value : Json) : Heap Json := h.write r ((h.read r).set key value)

def visit (py : Python) (messages : List Ref) (p : Pass) (item : Ref × Nat) : Except PyError Pass :=
  match malformed py (p.heap.read item.1) with
  | .error e => .error e
  | .ok none => .ok p
  | .ok (some args) =>
    (replacement py (p.heap.read item.1) args).map fun new =>
      let q := p.copied messages
      { q with
        heap := setItem q.heap (q.result.getD item.2 0) "arguments" (.str new.1)
        ids := q.ids ++ new.2 }

def recover (py : Python) (ids : List (Json.Key × Json)) (h : Heap Json) (r : Ref) : Except PyError (Heap Json) :=
  (recoverOutput py ids (h.read r)).map (h.write r)

/-- The heap afterwards, and the list returned. -/
def sanitizeToolCalls (py : Python) (h : Heap Json) (messages : List Ref) : Except PyError (Heap Json × List Ref) :=
  match messages.zipIdx.foldlM (visit py messages) ⟨h, messages, false, []⟩ with
  | .error e => .error e
  | .ok p =>
    if p.ids.isEmpty then .ok (p.heap, p.result)
    else (p.result.foldlM (recover py p.ids) p.heap).map fun heap => (heap, p.result)

/-! ## One message -/

variable {py : Python}

def Malformed (py : Python) (m : Json) : Prop :=
  isFunctionCall m = true ∧ ∃ args, m.get? "arguments" = some (.str args) ∧ args ≠ "" ∧ py.loads args = .decodeError

/-- A result of a repaired call. -/
def Answers (py : Python) (messages : List Json) (m : Json) : Prop :=
  isFunctionCallOutput m = true ∧ ∃ id, (getD m "call_id" (.str "")).key? = some id ∧
    ∃ call ∈ messages, RepairedUnder py id call

/-- If it is a call with an argument text, that is JSON. -/
def Readied (py : Python) (m : Json) : Prop :=
  isFunctionCall m = true → ∀ args, m.get? "arguments" = some (.str args) → args ≠ "" → ∃ j, py.loads args = .value j

/-- `json.loads` reads the placeholder `json.dumps` writes. -/
def ReadsPlaceholders (py : Python) : Prop :=
  ∀ fragment, ∃ j, py.loads (String.ofList (Json.dumps (errorPlaceholder fragment))) = .value j

theorem sanitizeCall_eq (py : Python) (m : Json) :
    sanitizeCall py m =
      match malformed py m with
      | .error e => .error e
      | .ok none => .ok (m, [])
      | .ok (some args) => (replacement py m args).map fun new => (m.set "arguments" (.str new.1), new.2) := by
  unfold sanitizeCall malformed
  cases isFunctionCall m with
  | false => rfl
  | true =>
    simp only [Bool.not_true, Bool.false_eq_true, if_false]
    cases m.get? "arguments" with
    | none => rfl
    | some value =>
      cases value with
      | str args =>
        simp only
        cases args.isEmpty with
        | true => rfl
        | false =>
          simp only [Bool.false_eq_true, if_false]
          cases parses py args with
          | error e => rfl
          | ok readable =>
            cases readable with
            | true => rfl
            | false =>
              simp only [Except.map, Bool.false_eq_true, if_false, replacement]
              cases repairTruncatedJson py args with
              | error e => rfl
              | ok repaired =>
                cases repaired with
                | none => rfl
                | some repaired =>
                  simp only
                  split
                  · cases (getD m "call_id" (.str "")).key? <;> rfl
                  · rfl
      | _ => rfl

theorem malformed_some {m : Json} {args : String} (h : malformed py m = .ok (some args)) : Malformed py m := by
  unfold malformed at h
  cases hcall : isFunctionCall m with
  | false =>
    rw [hcall] at h
    cases h
  | true =>
    rw [hcall] at h
    simp only [Bool.not_true, Bool.false_eq_true, if_false] at h
    split at h
    · rename_i text hargs
      split at h
      · cases h
      · rename_i hne
        refine ⟨hcall, text, hargs, by simpa using hne, ?_⟩
        unfold parses at h
        cases hloads : py.loads text with
        | decodeError => rfl
        | value j =>
          rw [hloads] at h
          cases h
        | valueError =>
          rw [hloads] at h
          cases h
        | recursionError =>
          rw [hloads] at h
          cases h
    · cases h

theorem malformed_none {m : Json} : malformed py m = .ok none ↔ Readied py m := by
  unfold malformed Readied
  cases hcall : isFunctionCall m with
  | false => simp
  | true =>
    simp only [Bool.not_true, Bool.false_eq_true, if_false, true_implies]
    split
    · rename_i text hargs
      rw [hargs]
      simp only [Option.some.injEq, Json.str.injEq, forall_eq']
      by_cases hne : text = ""
      · simp [hne]
      · rw [if_neg (by simpa using hne), imp_iff_right hne]
        unfold parses
        cases py.loads text <;> simp [Except.map]
    · rename_i hno
      refine iff_of_true rfl ?_
      intro args hargs
      exact absurd hargs (hno args)

theorem replacement_reads (hp : ReadsPlaceholders py) {m : Json} {args : String} {new : String × List (Json.Key × Json)}
    (h : replacement py m args = .ok new) : ∃ j, py.loads new.1 = .value j := by
  have hparses : ∀ s, parses py s = .ok true → ∃ j, py.loads s = .value j := by
    intro s hs
    unfold parses at hs
    cases hloads : py.loads s with
    | value j => exact ⟨j, rfl⟩
    | decodeError =>
      rw [hloads] at hs
      cases hs
    | valueError =>
      rw [hloads] at hs
      cases hs
    | recursionError =>
      rw [hloads] at hs
      cases hs
  have hrepaired : ∀ repaired, repairTruncatedJson py args = .ok (some repaired) → ∃ j, py.loads repaired = .value j := by
    intro repaired hr
    unfold repairTruncatedJson at hr
    split at hr
    · cases hr
    · split at hr
      · cases hr
      · rename_i hok
        cases hr
        exact hparses _ hok
      · simp only at hr
        cases hclosed : parses py (String.ofList (closedText args.toList)) with
        | error e =>
          rw [hclosed] at hr
          cases hr
        | ok readable =>
          rw [hclosed] at hr
          cases readable with
          | false => cases hr
          | true =>
            cases hr
            exact hparses _ hclosed
  unfold replacement at h
  cases hr : repairTruncatedJson py args with
  | error e =>
    rw [hr] at h
    cases h
  | ok repaired =>
    rw [hr] at h
    cases repaired with
    | none =>
      rw [← Except.ok.inj h]
      exact hp _
    | some repaired =>
      simp only at h
      split at h
      · split at h
        · rw [← Except.ok.inj h]
          exact hrepaired _ hr
        · cases h
      · rw [← Except.ok.inj h]
        exact hrepaired _ hr

/-- What the first loop makes of a message. -/
def fixed (py : Python) (m : Json) : Json :=
  match sanitizeCall py m with
  | .ok (m, _) => m
  | .error _ => m

theorem fixed_eq {m m' : Json} {ids : List (Json.Key × Json)} (h : sanitizeCall py m = .ok (m', ids)) :
    fixed py m = m' := by
  unfold fixed
  rw [h]

theorem sanitizeCalls_fixed {ms ms' : List Json} {ids : List (Json.Key × Json)}
    (h : sanitizeCalls py ms = .ok (ms', ids)) : ms' = ms.map (fixed py) := by
  induction ms generalizing ms' ids with
  | nil =>
    cases h
    rfl
  | cons m ms ih =>
    unfold sanitizeCalls at h
    cases hm : sanitizeCall py m with
    | error e =>
      rw [hm] at h
      cases h
    | ok r =>
      rw [hm] at h
      cases hms : sanitizeCalls py ms with
      | error e =>
        rw [hms] at h
        cases h
      | ok rest =>
        rw [hms] at h
        obtain ⟨hlist, -⟩ := Prod.mk.inj (Except.ok.inj h)
        rw [← hlist, List.map_cons, fixed_eq hm, ih hms]

/-- A message is kept, or it is a malformed call with other arguments. -/
theorem fixed_kept (m : Json) :
    fixed py m = m ∨ Malformed py m ∧ ∃ args, fixed py m = m.set "arguments" (.str args) := by
  unfold fixed
  rw [sanitizeCall_eq]
  cases hm : malformed py m with
  | error e => exact .inl rfl
  | ok args =>
    cases args with
    | none => exact .inl rfl
    | some args =>
      cases hr : replacement py m args with
      | error e =>
        simp only [hr]
        exact .inl rfl
      | ok new =>
        simp only [hr]
        exact .inr ⟨malformed_some hm, new.1, rfl⟩

theorem fixed_readied (hp : ReadsPlaceholders py) {m m' : Json} {ids : List (Json.Key × Json)}
    (h : sanitizeCall py m = .ok (m', ids)) : Readied py m' := by
  rw [sanitizeCall_eq] at h
  cases hm : malformed py m with
  | error e =>
    rw [hm] at h
    cases h
  | ok args =>
    rw [hm] at h
    cases args with
    | none =>
      obtain ⟨rfl, -⟩ := Prod.mk.inj (Except.ok.inj h)
      exact malformed_none.mp hm
    | some args =>
      cases hr : replacement py m args with
      | error e =>
        simp only [hr] at h
        cases h
      | ok new =>
        simp only [hr] at h
        obtain ⟨rfl, -⟩ := Prod.mk.inj (Except.ok.inj h)
        intro hcall text htext _
        obtain ⟨fields, rfl⟩ : ∃ fields, m = .obj fields := by
          obtain ⟨hobj, -⟩ := malformed_some hm
          cases m with
          | obj fields => exact ⟨fields, rfl⟩
          | _ => cases hobj
        have hset : (Json.set (.obj fields) "arguments" (.str new.1)).get? "arguments" = some (.str new.1) :=
          Json.lookup_setField_self "arguments" (.str new.1) fields
        rw [hset] at htext
        cases htext
        exact replacement_reads hp hr

/-! ## The first loop -/

section Loops

variable {h : Heap Json} {messages : List Ref}

/-- Where the loop writes what it makes of a cell. -/
def place (h : Heap Json) (mutated : Bool) (r : Ref) : Ref := if mutated then h.copyOf r else r

/-- The list behind `done`: the given cells are as they were, and those of the list returned
    hold what is made of the visited ones. -/
structure Visited (py : Python) (h : Heap Json) (messages done : List Ref) (p : Pass) : Prop where
  old : h.Keeps p.heap
  result : p.result = messages.map (place h p.mutated)
  given : p.mutated = false → p.heap = h ∧ p.ids = []
  reads : ∀ r ∈ messages, p.heap.read (place h p.mutated r) = if r ∈ done then fixed py (h.read r) else h.read r

theorem Visited.congr {done done' : List Ref} {p : Pass} (hv : Visited py h messages done p)
    (hsame : ∀ r, r ∈ done ↔ r ∈ done') : Visited py h messages done' p := by
  refine ⟨hv.old, hv.result, hv.given, ?_⟩
  intro r hr
  rw [hv.reads r hr]
  simp only [hsame]

theorem visited_start : Visited py h messages [] ⟨h, messages, false, []⟩ := by
  refine ⟨Heap.Keeps.rfl, (List.map_id _).symm, fun _ => ⟨rfl, rfl⟩, ?_⟩
  intro r _
  rw [if_neg List.not_mem_nil]
  rfl

theorem copied_visited {done : List Ref} {p : Pass} (hv : Visited py h messages done p) :
    Visited py h messages done (p.copied messages) ∧ (p.copied messages).mutated = true ∧
      (p.copied messages).ids = p.ids := by
  unfold Pass.copied
  cases hm : p.mutated with
  | true =>
    rw [if_pos rfl]
    exact ⟨hv, hm, rfl⟩
  | false =>
    obtain ⟨hheap, hids⟩ := hv.given hm
    rw [if_neg (by decide), hheap]
    refine ⟨⟨h.old_copy messages, rfl, (fun hf => by cases hf), ?_⟩, rfl, rfl⟩
    intro r hr
    have hread := hv.reads r hr
    rw [hm, hheap] at hread
    exact (h.read_copy messages r).trans hread

/-- One round: it raises what `sanitizeCall` does, or goes on with what that returns. -/
theorem visit_spec (hh : h.Holds messages) {done : List Ref} {p : Pass} (hv : Visited py h messages done p)
    {r : Ref} {idx : Nat} (hidx : messages[idx]? = some r) :
    match sanitizeCall py (h.read r) with
    | .error e => visit py messages p (r, idx) = .error e
    | .ok (_, ids) => ∃ q, visit py messages p (r, idx) = .ok q ∧ Visited py h messages (r :: done) q ∧
        q.ids = p.ids ++ ids := by
  have hmem : r ∈ messages := List.mem_of_getElem? hidx
  have hitem : p.heap.read r = h.read r := hv.old r (hh r hmem)
  unfold visit
  simp only [hitem]
  cases hm : malformed py (h.read r) with
  | error e =>
    rw [sanitizeCall_eq, hm]
  | ok args =>
    cases args with
    | none =>
      have hcall : sanitizeCall py (h.read r) = .ok (h.read r, []) := by rw [sanitizeCall_eq, hm]
      rw [hcall]
      refine ⟨p, rfl, ⟨hv.old, hv.result, hv.given, ?_⟩, (List.append_nil _).symm⟩
      intro q hq
      rw [hv.reads q hq]
      by_cases hqr : q = r
      · subst hqr
        rw [if_pos List.mem_cons_self, fixed_eq hcall, ite_self]
      · simp [hqr]
    | some args =>
      cases hr : replacement py (h.read r) args with
      | error e =>
        rw [sanitizeCall_eq, hm]
        simp only [hr]
        rfl
      | ok new =>
        have hcall : sanitizeCall py (h.read r) = .ok ((h.read r).set "arguments" (.str new.1), new.2) := by
          rw [sanitizeCall_eq, hm]
          simp only [hr]
          rfl
        rw [hcall]
        obtain ⟨hc, hmut, hids⟩ := copied_visited hv
        simp only [hr]
        refine ⟨_, rfl, ?_, by rw [hids]⟩
        -- the cell the loop writes to is the copy of the one it looks at
        have hcell : (p.copied messages).result.getD idx 0 = h.copyOf r := by
          rw [hc.result, hmut, List.getD_eq_getElem?_getD, List.getElem?_map, hidx]
          rfl
        have hread := hc.reads
        rw [hmut] at hread
        refine ⟨?_, ?_, ?_, ?_⟩
        · simp only [hcell, setItem]
          exact Heap.old_write hc.old r _
        · exact hc.result
        · intro hf
          rw [show Pass.mutated _ = (p.copied messages).mutated from rfl, hmut] at hf
          cases hf
        · intro q hq
          simp only [hcell, setItem, hmut]
          show (if h.copyOf q = h.copyOf r then _ else (p.copied messages).heap.read (h.copyOf q)) = _
          have hold := hread q hq
          change (p.copied messages).heap.read (h.copyOf q) = _ at hold
          by_cases hqr : q = r
          · subst hqr
            rw [if_pos rfl, if_pos List.mem_cons_self, hold, fixed_eq hcall]
            split
            · exact Json.set_set ..
            · rfl
          · rw [if_neg (fun he => hqr (Heap.copyOf_inj.mp he)), hold]
            simp [hqr]

/-- The loop raises what the rounds do, or goes through. -/
theorem visits_spec (hh : h.Holds messages) {done : List Ref} {p : Pass} (hv : Visited py h messages done p)
    (items : List (Ref × Nat)) (hitems : ∀ item ∈ items, messages[item.2]? = some item.1) :
    match sanitizeCalls py (items.map fun item => h.read item.1) with
    | .error e => items.foldlM (visit py messages) p = .error e
    | .ok (_, ids) => ∃ q, items.foldlM (visit py messages) p = .ok q ∧
        Visited py h messages (items.map (·.1) ++ done) q ∧ q.ids = p.ids ++ ids := by
  induction items generalizing done p with
  | nil => exact ⟨p, rfl, hv, (List.append_nil _).symm⟩
  | cons item items ih =>
    obtain ⟨hitem, hrest⟩ := List.forall_mem_cons.mp hitems
    obtain ⟨r, idx⟩ := item
    have hvisit := visit_spec hh hv hitem
    rw [List.map_cons, sanitizeCalls, List.foldlM_cons]
    cases hcall : sanitizeCall py (h.read r) with
    | error e =>
      rw [hcall] at hvisit
      simp only at hvisit ⊢
      rw [hvisit]
      rfl
    | ok call =>
      obtain ⟨m, ids⟩ := call
      rw [hcall] at hvisit
      obtain ⟨q, hq, hvq, hids⟩ := hvisit
      simp only
      rw [hq]
      have hih := ih hvq hrest
      cases hcalls : sanitizeCalls py (items.map fun item => h.read item.1) with
      | error e =>
        rw [hcalls] at hih
        exact hih
      | ok rest =>
        obtain ⟨ms, ids'⟩ := rest
        rw [hcalls] at hih
        obtain ⟨q', hq', hvq', hids'⟩ := hih
        refine ⟨q', hq', hvq'.congr ?_, ?_⟩
        · intro x
          simp only [List.mem_append, List.mem_cons, List.map_cons]
          tauto
        · rw [hids', hids, List.append_assoc]

/-! ## The second loop -/

/-- What the second loop may make of a message. -/
def Told (py : Python) (ids : List (Json.Key × Json)) (m m' : Json) : Prop :=
  m' = m ∨ Returns (recoverOutput py ids m) ∧ isFunctionCallOutput m = true ∧
    (∃ id, (getD m "call_id" (.str "")).key? = some id ∧ id ∈ ids.map (·.1)) ∧
    ∃ text, m' = m.set "output" (.str text)

theorem recoverOutput_told {ids : List (Json.Key × Json)} {m m' : Json} (hr : recoverOutput py ids m = .ok m') :
    Told py ids m m' := by
  have hreturns : Returns (recoverOutput py ids m) := ⟨m', hr⟩
  unfold recoverOutput at hr
  cases hout : isFunctionCallOutput m with
  | false =>
    rw [hout] at hr
    exact .inl (Except.ok.inj hr).symm
  | true =>
    rw [hout] at hr
    simp only [Bool.not_true, Bool.false_eq_true, if_false] at hr
    split at hr
    · cases hr
    · rename_i id hid
      split at hr
      · exact .inl (Except.ok.inj hr).symm
      · rename_i name hfind
        split at hr
        · cases hr
        · refine .inr ⟨hreturns, hout, ⟨id, hid, ?_⟩, _, (Except.ok.inj hr).symm⟩
          refine List.mem_map.mpr ⟨_, List.mem_reverse.mp (List.mem_of_find?_eq_some hfind), ?_⟩
          exact beq_iff_eq.mp (List.find?_some (p := fun pair : Json.Key × Json => pair.1 == id) hfind)

theorem set_output_call_id (m : Json) (text : String) :
    getD (m.set "output" (.str text)) "call_id" (.str "") = getD m "call_id" (.str "") := by
  unfold getD
  rw [Json.get?_set_other _ (by decide)]

theorem set_output_type (m : Json) (text key : String) :
    (m.set "output" (.str text)).fieldIs "type" key = m.fieldIs "type" key := by
  unfold Json.fieldIs
  rw [Json.get?_set_other _ (by decide)]

/-- A message that was told can be told again. -/
theorem told_again {ids : List (Json.Key × Json)} {m m' : Json} (ht : Told py ids m m') :
    (Returns (recoverOutput py ids m') ↔ Returns (recoverOutput py ids m)) ∧
      ∀ m'', recoverOutput py ids m' = .ok m'' → Told py ids m m'' := by
  rcases ht with rfl | ⟨hreturns, hout, ⟨id, hid, hmem⟩, text, rfl⟩
  · exact ⟨Iff.rfl, fun _ hr => recoverOutput_told hr⟩
  · obtain ⟨fields, rfl⟩ : ∃ fields, m = .obj fields := by
      cases m with
      | obj fields => exact ⟨fields, rfl⟩
      | _ => cases hout
    refine ⟨iff_of_true ?_ hreturns, ?_⟩
    · rw [recoverOutput_returns_iff, set_output_call_id]
      intro _
      refine ⟨id, hid, fun _ => ?_⟩
      have houtput : getD (Json.set (.obj fields) "output" (.str text)) "output" (.str "") = .str text := by
        unfold getD
        rw [show (Json.set (.obj fields) "output" (.str text)).get? "output" = some (.str text) from
          Json.lookup_setField_self "output" (.str text) fields]
        rfl
      rw [houtput]
      intro parts hparts
      cases hparts
    · intro m'' hr
      rcases recoverOutput_told hr with rfl | ⟨-, -, -, text', rfl⟩
      · exact .inr ⟨hreturns, hout, ⟨id, hid, hmem⟩, text, rfl⟩
      · exact .inr ⟨hreturns, hout, ⟨id, hid, hmem⟩, text', Json.set_set ..⟩

/-- The heap behind the second loop's rounds. -/
structure Retold (py : Python) (h : Heap Json) (messages : List Ref) (ids : List (Json.Key × Json)) (k : Heap Json) :
    Prop where
  old : h.Keeps k
  reads : ∀ r ∈ messages, Told py ids (fixed py (h.read r)) (k.read (h.copyOf r))

theorem recover_spec {ids : List (Json.Key × Json)} {k : Heap Json} (hk : Retold py h messages ids k) {r : Ref}
    (hr : r ∈ messages) :
    (Returns (recover py ids k (h.copyOf r)) ↔ Returns (recoverOutput py ids (fixed py (h.read r)))) ∧
      ∀ k', recover py ids k (h.copyOf r) = .ok k' → Retold py h messages ids k' := by
  obtain ⟨hreturns, htold⟩ := told_again (hk.reads r hr)
  unfold recover
  refine ⟨by rw [returns_map, hreturns], ?_⟩
  intro k' hk'
  cases hm : recoverOutput py ids (k.read (h.copyOf r)) with
  | error e =>
    rw [hm] at hk'
    cases hk'
  | ok m =>
    rw [hm] at hk'
    obtain rfl := Except.ok.inj hk'
    refine ⟨Heap.old_write hk.old r m, ?_⟩
    intro q hq
    rw [Heap.read_write]
    by_cases hqr : q = r
    · subst hqr
      rw [if_pos rfl]
      exact htold m hm
    · rw [if_neg fun he => hqr (Heap.copyOf_inj.mp he)]
      exact hk.reads q hq

theorem recovers_spec {ids : List (Json.Key × Json)} {k : Heap Json} (hk : Retold py h messages ids k)
    (refs : List Ref) (hrefs : ∀ r ∈ refs, r ∈ messages) :
    (Returns ((refs.map h.copyOf).foldlM (recover py ids) k) ↔
      ∀ r ∈ refs, Returns (recoverOutput py ids (fixed py (h.read r)))) ∧
      ∀ k', (refs.map h.copyOf).foldlM (recover py ids) k = .ok k' → Retold py h messages ids k' := by
  induction refs generalizing k with
  | nil =>
    refine ⟨iff_of_true ⟨k, rfl⟩ (List.forall_mem_nil _), ?_⟩
    intro k' hk'
    cases hk'
    exact hk
  | cons r refs ih =>
    obtain ⟨hr, hrest⟩ := List.forall_mem_cons.mp hrefs
    obtain ⟨hone, hnext⟩ := recover_spec hk hr
    rw [List.map_cons, List.foldlM_cons, List.forall_mem_cons, ← hone]
    cases hstep : recover py ids k (h.copyOf r) with
    | error e =>
      refine ⟨iff_of_false (not_returns_error e) fun hboth => not_returns_error e hboth.1, ?_⟩
      intro k' hk'
      cases hk'
    | ok k₁ =>
      obtain ⟨hreturns, hkeeps⟩ := ih (hnext k₁ hstep) hrest
      refine ⟨?_, hkeeps⟩
      rw [and_iff_right (returns_ok k₁)]
      exact hreturns

/-! ## The list returned -/

/-- What the sanitiser promises of the list returned, and of the one given. -/
structure Sanitized (py : Python) (h : Heap Json) (messages : List Ref) (h' : Heap Json) (result : List Ref) : Prop where
  length : result.length = messages.length
  readied : ∀ r ∈ result, Readied py (h'.read r)
  others : ∀ i (hi : i < messages.length) (hi' : i < result.length),
    h'.read result[i] = h.read messages[i] ∨
    (Malformed py (h.read messages[i]) ∧
      ∃ args, h'.read result[i] = (h.read messages[i]).set "arguments" (.str args)) ∨
    (Answers py (messages.map h.read) (h.read messages[i]) ∧
      ∃ text, h'.read result[i] = (h.read messages[i]).set "output" (.str text))
  given : h.Keeps h'
  again : sanitizeToolCalls py h' result = .ok (h', result)

/-- A list of which every call can be read is returned as it is. -/
theorem sanitizeToolCalls_readied {k : Heap Json} {result : List Ref} (hr : ∀ r ∈ result, Readied py (k.read r)) :
    sanitizeToolCalls py k result = .ok (k, result) := by
  have hvisits : ∀ items : List (Ref × Nat), (∀ item ∈ items, item.1 ∈ result) →
      items.foldlM (visit py result) ⟨k, result, false, []⟩ = .ok ⟨k, result, false, []⟩ := by
    intro items hitems
    induction items with
    | nil => rfl
    | cons item items ih =>
      obtain ⟨hitem, hrest⟩ := List.forall_mem_cons.mp hitems
      have hvisit : visit py result ⟨k, result, false, []⟩ item = .ok ⟨k, result, false, []⟩ := by
        unfold visit
        simp only [malformed_none.mpr (hr item.1 hitem)]
      rw [List.foldlM_cons, hvisit]
      exact ih hrest
  unfold sanitizeToolCalls
  rw [hvisits _ fun item hitem => (List.mem_zipIdx' hitem).2 ▸ List.getElem_mem _]
  rfl

/-- A result stays as the first loop left it, and a call as the second did. -/
theorem readied_told (hp : ReadsPlaceholders py) {ids : List (Json.Key × Json)} {m m' v : Json}
    {ids' : List (Json.Key × Json)} (hm : sanitizeCall py m = .ok (m', ids')) (ht : Told py ids m' v) :
    Readied py v := by
  rcases ht with rfl | ⟨-, hout, -, text, rfl⟩
  · exact fixed_readied hp hm
  · intro hcall
    unfold isFunctionCall at hcall
    rw [set_output_type] at hcall
    have hno := output_not_call hout
    unfold isFunctionCall at hno
    rw [hcall] at hno
    cases hno

/-- A result is no malformed call, so the first loop keeps it. -/
theorem fixed_output {m : Json} (hout : isFunctionCallOutput (fixed py m) = true) : fixed py m = m := by
  rcases @fixed_kept py m with hkept | ⟨⟨hcall, -⟩, args, hset⟩
  · exact hkept
  · have hno := output_not_call hout
    rw [hset] at hno
    unfold isFunctionCall Json.fieldIs at hno hcall
    rw [Json.get?_set_other _ (by decide), hcall] at hno
    cases hno

theorem told_others {ids : List (Json.Key × Json)} {ms : List Json}
    (hcalls : sanitizeCalls py (messages.map h.read) = .ok (ms, ids)) {m v : Json} (ht : Told py ids (fixed py m) v) :
    v = m ∨ (Malformed py m ∧ ∃ args, v = m.set "arguments" (.str args)) ∨
      (Answers py (messages.map h.read) m ∧ ∃ text, v = m.set "output" (.str text)) := by
  rcases ht with rfl | ⟨-, hout, ⟨id, hid, hmem⟩, text, rfl⟩
  · rcases @fixed_kept py m with hkept | hset
    · exact .inl hkept
    · exact .inr (.inl hset)
  · have hkept := fixed_output hout
    rw [hkept] at hout hid ⊢
    have hrepaired := ((sanitizeCalls_spec py (messages.map h.read)).2 ms ids hcalls id).mp hmem
    exact .inr (.inr ⟨⟨hout, id, hid, hrepaired⟩, text, rfl⟩)

theorem sanitized_of (hp : ReadsPlaceholders py) {ids : List (Json.Key × Json)} {ms : List Json} {k : Heap Json}
    {mutated : Bool} (hcalls : sanitizeCalls py (messages.map h.read) = .ok (ms, ids)) (hold : h.Keeps k)
    (ht : ∀ r ∈ messages, Told py ids (fixed py (h.read r)) (k.read (place h mutated r))) :
    Sanitized py h messages k (messages.map (place h mutated)) := by
  have hreturns : ∀ r ∈ messages, Returns (sanitizeCall py (h.read r)) := by
    intro r hr
    rw [(sanitizeCall_spec py (h.read r)).1]
    exact (sanitizeCalls_spec py _).1.mp ⟨_, hcalls⟩ _ (List.mem_map_of_mem hr)
  have hready : ∀ r ∈ messages.map (place h mutated), Readied py (k.read r) := by
    intro r hr
    obtain ⟨q, hq, rfl⟩ := List.mem_map.mp hr
    obtain ⟨⟨m, ids'⟩, hm⟩ := hreturns q hq
    have htold := ht q hq
    rw [fixed_eq hm] at htold
    exact readied_told hp hm htold
  refine ⟨List.length_map _, hready, ?_, hold, sanitizeToolCalls_readied hready⟩
  intro i hi hi'
  rw [List.getElem_map]
  exact told_others hcalls (ht _ (List.getElem_mem hi))

/-- The run, by what the first loop makes of the messages. -/
theorem run_spec (hh : h.Holds messages) :
    match sanitizeCalls py (messages.map h.read) with
    | .error e => sanitizeToolCalls py h messages = .error e
    | .ok (_, ids) => ∃ p, Visited py h messages messages p ∧ p.ids = ids ∧ sanitizeToolCalls py h messages =
        if ids.isEmpty then .ok (p.heap, p.result)
        else (p.result.foldlM (recover py ids) p.heap).map fun heap => (heap, p.result) := by
  have hitems : ∀ item ∈ messages.zipIdx, messages[item.2]? = some item.1 := by
    intro item hitem
    exact List.mem_zipIdx_iff_getElem?.mp hitem
  have hvisits := @visits_spec py h messages hh _ _ visited_start messages.zipIdx hitems
  have hrefs : messages.zipIdx.map (·.1) = messages := by simp
  have hvalues : (messages.zipIdx.map fun item => h.read item.1) = messages.map h.read := by
    conv_rhs => rw [← hrefs, List.map_map]
    rfl
  rw [hvalues] at hvisits
  unfold sanitizeToolCalls
  cases hcalls : sanitizeCalls py (messages.map h.read) with
  | error e =>
    rw [hcalls] at hvisits
    simp only at hvisits ⊢
    rw [hvisits]
  | ok calls =>
    rw [hcalls] at hvisits
    obtain ⟨p, hp, hv, hids⟩ := hvisits
    rw [hrefs, List.append_nil] at hv
    rw [List.nil_append] at hids
    refine ⟨p, hv, hids, ?_⟩
    rw [hp, ← hids]

/-- It returns what `Messages.sanitizeToolCalls` does not raise on, and then keeps its promise. -/
theorem run_sanitizes (hh : h.Holds messages) (hp : ReadsPlaceholders py) :
    (Returns (sanitizeToolCalls py h messages) ↔ Returns (Messages.sanitizeToolCalls py (messages.map h.read))) ∧
      ∀ h' result, sanitizeToolCalls py h messages = .ok (h', result) → Sanitized py h messages h' result := by
  have hrun := @run_spec py h messages hh
  unfold Messages.sanitizeToolCalls
  cases hcalls : sanitizeCalls py (messages.map h.read) with
  | error e =>
    rw [hcalls] at hrun
    simp only at hrun
    rw [hrun]
    refine ⟨iff_of_false (not_returns_error e) (not_returns_error e), ?_⟩
    intro h' result hok
    cases hok
  | ok calls =>
    obtain ⟨ms, ids⟩ := calls
    rw [hcalls] at hrun
    obtain ⟨p, hv, hids, hrun⟩ := hrun
    have hreads : ∀ r ∈ messages, p.heap.read (place h p.mutated r) = fixed py (h.read r) := by
      intro r hr
      rw [hv.reads r hr, if_pos hr]
    simp only
    cases hempty : ids.isEmpty with
    | true =>
      rw [hempty, if_pos rfl] at hrun
      rw [hrun, if_pos rfl]
      refine ⟨iff_of_true (returns_ok _) (returns_ok _), ?_⟩
      intro h' result hok
      obtain ⟨rfl, rfl⟩ := Prod.mk.inj (Except.ok.inj hok)
      rw [hv.result]
      exact sanitized_of hp hcalls hv.old fun r hr => .inl (hreads r hr)
    | false =>
      have hmut : p.mutated = true := by
        by_contra hno
        obtain ⟨-, hnil⟩ := hv.given (Bool.not_eq_true _ ▸ hno)
        rw [← hids, hnil] at hempty
        cases hempty
      have hresult : p.result = messages.map h.copyOf := by
        rw [hv.result, hmut]
        rfl
      rw [hmut] at hreads
      have hstart : Retold py h messages ids p.heap := ⟨hv.old, fun r hr => .inl (hreads r hr)⟩
      obtain ⟨hreturns, hkeeps⟩ := recovers_spec hstart messages fun _ hr => hr
      rw [hempty, if_neg (by decide), hresult] at hrun
      rw [hrun, if_neg (by decide), returns_map, hreturns]
      refine ⟨?_, ?_⟩
      · rw [sanitizeCalls_fixed hcalls, List.map_map, recoverOutputs_returns_iff]
        simp only [recoverOutput_returns_iff, List.forall_mem_map, Function.comp_apply]
      · intro h' result hok
        cases hfold : (messages.map h.copyOf).foldlM (recover py ids) p.heap with
        | error e =>
          rw [hfold] at hok
          cases hok
        | ok k =>
          rw [hfold] at hok
          obtain ⟨rfl, rfl⟩ := Prod.mk.inj (Except.ok.inj hok)
          have hk := hkeeps k hfold
          exact @sanitized_of py h messages hp ids ms k true hcalls hk.old hk.reads

/-- Total, local and idempotent, exactly on the lists `json.loads` and the dictionary of ids
    raise nothing but decode errors on. -/
theorem sanitizes_iff (hh : h.Holds messages) (hp : ReadsPlaceholders py) :
    (∃ h' result, sanitizeToolCalls py h messages = .ok (h', result) ∧ Sanitized py h messages h' result) ↔
      Sanitizes py (messages.map h.read) := by
  obtain ⟨hreturns, hkeeps⟩ := run_sanitizes hh hp
  rw [← sanitizeToolCalls_returns_iff, ← hreturns]
  constructor
  · intro hrun
    obtain ⟨h', result, hok, -⟩ := hrun
    exact ⟨_, hok⟩
  · intro hrun
    obtain ⟨⟨h', result⟩, hok⟩ := hrun
    exact ⟨h', result, hok, hkeeps h' result hok⟩

end Loops

/-! ## A call with a huge integer -/

/-- `json.loads` with its limit of 4300 digits, here of a text that is one integer. -/
def limited : Python where
  loads s :=
    if s.toList.all Char.isDigit && decide (4300 < s.toList.length) then .valueError
    else
      match Json.parse s.toList with
      | some j => .value j
      | none => .decodeError
  str _ := ""
  isAlnum := Char.isAlphanum
  isDigit := Char.isDigit
  upper := id

theorem limited_reads : ReadsPlaceholders limited := by
  intro fragment
  refine ⟨errorPlaceholder fragment, ?_⟩
  unfold limited
  have hno : (Json.dumps (errorPlaceholder fragment)).all Char.isDigit = false := rfl
  simp only [String.toList_ofList, hno, Bool.false_and, Bool.false_eq_true, if_false]
  rw [Json.dumps, Json.parse_write Json.spaced_valid]

/-- One message, a call with these arguments. -/
def oneCall (args : String) : Heap Json :=
  ⟨fun _ => .obj [("type", .str "function_call"), ("call_id", .str "c"), ("arguments", .str args)], 1⟩

theorem oneCall_holds (args : String) : (oneCall args).Holds [0] := by
  intro r hr
  obtain rfl := List.mem_singleton.mp hr
  exact Nat.one_pos

theorem a_cut_call_is_sanitized :
    ∃ h' result, sanitizeToolCalls limited (oneCall "\x7b") [0] = .ok (h', result) ∧
      Sanitized limited (oneCall "\x7b") [0] h' result := by
  refine (sanitizes_iff (oneCall_holds _) limited_reads).mpr ⟨?_, ?_⟩
  · intro m hm _ args hargs _
    obtain rfl := List.mem_singleton.mp hm
    obtain rfl := Json.str.inj (Option.some.inj hargs)
    have hcut : limited.loads "\x7b" = .decodeError := rfl
    have hclosed : limited.loads (String.ofList (closedText "\x7b".toList)) = .value (.obj []) := rfl
    refine ⟨?_, fun _ _ => ?_, fun _ _ => rfl⟩
    · rw [Readable, hcut]
      exact ⟨Loads.noConfusion, Loads.noConfusion⟩
    · rw [Readable, hclosed]
      exact ⟨Loads.noConfusion, Loads.noConfusion⟩
  · intro _ m hm hout
    obtain rfl := List.mem_singleton.mp hm
    cases hout

theorem limited_digits {n : Nat} (hn : 4300 < n) : limited.loads (String.ofList (List.replicate n '1')) = .valueError := by
  have hdigits : (List.replicate n '1').all Char.isDigit = true := by
    rw [List.all_replicate]
    simp
  unfold limited
  simp only [String.toList_ofList, hdigits, List.length_replicate, hn, decide_true, Bool.and_self, if_true]

theorem oneCall_raises {py : Python} {args : String} (hne : args ≠ "") (hloads : py.loads args = .valueError) :
    sanitizeToolCalls py (oneCall args) [0] = .error .valueError := by
  have hcall : malformed py ((oneCall args).read 0) = .error .valueError := by
    show (if args.isEmpty then _ else (parses py args).map _) = _
    rw [if_neg (by simpa using hne), parses, hloads]
    rfl
  unfold sanitizeToolCalls
  rw [List.zipIdx_singleton, List.foldlM_cons, visit, hcall]
  rfl

/-- The limit raises a `ValueError` that is no `JSONDecodeError`, and the sanitiser with it. -/
theorem a_huge_integer_is_raised_on :
    sanitizeToolCalls limited (oneCall (String.ofList (List.replicate 4301 '1'))) [0] = .error .valueError := by
  refine oneCall_raises ?_ (limited_digits (by decide))
  intro hempty
  have hlen := congrArg (fun s : String => s.toList.length) hempty
  rw [String.toList_ofList, List.length_replicate] at hlen
  cases hlen

end Errand.Runner.SanitizedCopy

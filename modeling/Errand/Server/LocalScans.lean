import Errand.Server.ModelReferences

/-
  Errand.Server.LocalScans — a scan for local runtimes, and a second one right after it with
  the same answers.

  The second scan need not find what the first left as it should be. The name of a runtime
  that has departed is free only when the first scan is over, and a runtime it had no name
  for is registered by the second. And whether anybody has chosen a model is read anew: where
  the first scan has cleared the last role that was set, the second may choose.

  Proved:
  - `run_reconciling`: what a scan has done when it is through a part of the endpoints.
  - `registered_urls`: the endpoints it registers are those that have a row when it is over.
  - `scan_careful`: a scan removes no runtime that is there, keeps of every row all but the
    type, and points no role at another model where one was set; a second one changes nothing
    exactly if no runtime without a row finds a name now, and, where a role was set, one still
    is or there is no sole model to choose.
  - `a_second_scan_chooses`: the runtime of both roles departs.
-/

namespace Errand.Server.LocalScans

open Errand.Lib Errand.Server.Providers Errand.Server.ModelSettings
open Errand.Server.SettingsRegistry (noModel)
open Errand.Server.ModelReferences (sampleIds)

/-! ## The row at an endpoint -/

/-- The provider is one a scan reconciles at the URL. -/
def DetectedAt (url : String) (p : Provider) : Prop := p.source = .detected ∧ canonicalBaseUrl p.baseUrl = url

instance (url : String) : DecidablePred (DetectedAt url) := fun p => by unfold DetectedAt; infer_instance

def held (rows : List Provider) (url : String) : Bool := rows.any fun p => decide (DetectedAt url p)

theorem held_iff {rows : List Provider} {url : String} : held rows url = true ↔ ∃ p ∈ rows, DetectedAt url p := by
  simp [held]

theorem not_held_iff {rows : List Provider} {url : String} :
    held rows url = false ↔ ∀ p ∈ rows, ¬ DetectedAt url p := by
  simp [held]

theorem detectedRow_eq_none {rows : List Provider} {url : String} :
    detectedRow rows url = none ↔ held rows url = false := by
  rw [not_held_iff]
  unfold detectedRow configured
  rw [List.find?_eq_none]
  simp only [List.mem_insertionSort, decide_eq_true_eq]
  rfl

theorem older_total (p q : Provider) : Older p q ∨ Older q p := by
  unfold Older
  omega

theorem older_trans {p q r : Provider} (h : Older p q) (h' : Older q r) : Older p r := by
  unfold Older at *
  omega

/-- Of the rows at an endpoint it is the oldest. -/
theorem detectedRow_oldest {rows : List Provider} {url : String} {p : Provider} (h : detectedRow rows url = some p) :
    ∀ q ∈ rows, DetectedAt url q → Older p q := by
  have : Std.Total Older := ⟨older_total⟩
  have : IsTrans Provider Older := ⟨fun _ _ _ => older_trans⟩
  intro q hq hat
  obtain ⟨-, before, after, heq, hbefore⟩ := List.find?_eq_some_iff_append.mp h
  have hsorted := List.pairwise_insertionSort Older rows
  have hmem : q ∈ rows.insertionSort Older := (List.mem_insertionSort _).mpr hq
  unfold configured at heq
  rw [heq] at hsorted hmem
  rcases List.mem_append.mp hmem with hmem | hmem
  · have hnot := hbefore q hmem
    rw [Bool.not_eq_true', decide_eq_false_iff_not] at hnot
    exact absurd hat hnot
  · rcases List.mem_cons.mp hmem with rfl | hmem
    · exact (older_total q q).elim id id
    · exact (List.pairwise_cons.mp (List.pairwise_append.mp hsorted).2.1).1 q hmem

theorem older_antisymm {p q : Provider} (h : Older p q) (h' : Older q p) : p.id = q.id := by
  unfold Older at *
  omega

theorem canonicalBaseUrl_endpointUrl (gateway : String) (port : Nat) :
    canonicalBaseUrl (endpointUrl gateway port) = endpointUrl gateway port := rstripSlash_endpointUrl gateway port

theorem endpointUrls_nodup (gateway : String) : (candidatePorts.map (endpointUrl gateway)).Nodup := by
  have hurl : endpointUrl gateway = (fun port => "http://" ++ gateway ++ ":" ++ port ++ "/v1") ∘ toString := by
    funext port
    rfl
  rw [hurl, ← List.map_map]
  refine List.Nodup.map ?_ (by decide)
  intro a b h
  have hchars := congrArg String.toList h
  simp only [String.toList_append, List.append_cancel_left_eq, List.append_cancel_right_eq] at hchars
  exact String.toList_inj.mp hchars

/-! ## A scan through its endpoints -/

section Scan

variable {cipher : Cipher} {rows : List Provider} {o : Outside}

/-- The type of the runtime at a URL. -/
def typeAt (cipher : Cipher) (rows : List Provider) (o : Outside) (url : String) : ProviderType :=
  resolvedType o url (storedKey cipher rows url)

/-- What a scan has done when it is through the endpoints of `done`. -/
structure Reconciling (cipher : Cipher) (rows : List Provider) (o : Outside) (done : List String) (r : Registering) :
    Prop where
  keyed : Keyed r.rows
  canonical : ∀ url ∈ done, canonicalBaseUrl url = url
  origin : ∀ q ∈ r.rows, (∃ p ∈ rows, q = { p with providerType := q.providerType }) ∨
    q.source = .detected ∧ q.baseUrl ∈ done ∧ detectedRow rows q.baseUrl = none ∧
      q.providerType = typeAt cipher rows o q.baseUrl
  stays : ∀ p ∈ rows, ∃ type, { p with providerType := type } ∈ r.rows
  typed : ∀ url ∈ done, ∀ p, detectedRow rows url = some p → ∀ q ∈ r.rows, q.id = p.id →
    q.providerType = typeAt cipher rows o url
  urls : r.registered.map Detected.baseUrl = done.filter (held r.rows)

theorem reconciling_start (cipher : Cipher) (hk : Keyed rows) (o : Outside) (claim : Bool) :
    Reconciling cipher rows o [] ⟨rows, claim, []⟩ where
  keyed := hk
  canonical := nofun
  origin := fun q hq => .inl ⟨q, hq, rfl⟩
  stays := fun p hp => ⟨p.providerType, hp⟩
  typed := nofun
  urls := rfl

variable {done : List String} {r : Registering} {info : Detected}

/-- At an endpoint without a row the endpoints done have made none. -/
theorem Reconciling.not_held (h : Reconciling cipher rows o done r) (hrow : detectedRow rows info.baseUrl = none)
    (hnew : info.baseUrl ∉ done) : held r.rows info.baseUrl = false := by
  rw [not_held_iff]
  rintro q hq ⟨hsource, hat⟩
  rcases h.origin q hq with ⟨p, hp, heq⟩ | ⟨-, hdone, -⟩
  · rw [heq] at hsource hat
    exact not_held_iff.mp (detectedRow_eq_none.mp hrow) p hp ⟨hsource, hat⟩
  · rw [h.canonical _ hdone] at hat
    exact hnew (hat ▸ hdone)

theorem Reconciling.canonical_concat (h : Reconciling cipher rows o done r)
    (hurl : canonicalBaseUrl info.baseUrl = info.baseUrl) :
    ∀ url ∈ done ++ [info.baseUrl], canonicalBaseUrl url = url := by
  intro url hdone
  rcases List.mem_append.mp hdone with hdone | hdone
  · exact h.canonical url hdone
  · rw [List.mem_singleton] at hdone
    rw [hdone, hurl]

/-- The runtime has a row, which gets its type. -/
theorem Reconciling.retype (hk : Keyed rows) (h : Reconciling cipher rows o done r)
    (hurl : canonicalBaseUrl info.baseUrl = info.baseUrl)
    (htype : info.providerType = typeAt cipher rows o info.baseUrl)
    {existing : Provider} (hrow : detectedRow rows info.baseUrl = some existing) :
    Reconciling cipher rows o (done ++ [info.baseUrl]) (register cipher o (some existing) r info) := by
  let g : Provider → Provider := fun p => if p.id = existing.id then { p with providerType := info.providerType } else p
  have hrows : (register cipher o (some existing) r info).rows = r.rows.map g := rfl
  have hg : ∀ p, g p = { p with providerType := (g p).providerType } := by
    intro p
    by_cases hp : p.id = existing.id
    · simp only [g, if_pos hp]
    · simp only [g, if_neg hp]
  obtain ⟨hexisting, hsource, hat⟩ := detectedRow_spec hrow
  have hheld : held (r.rows.map g) = held r.rows := by
    funext url
    unfold held DetectedAt
    rw [List.any_map]
    congr 1
    funext p
    rw [Function.comp_apply, hg p]
  refine ⟨?_, h.canonical_concat hurl, ?_, ?_, ?_, ?_⟩
  · rw [hrows]
    exact h.keyed.map (fun p _ => by rw [hg p]) (fun p _ => by rw [hg p])
  · intro s hs
    rw [hrows] at hs
    obtain ⟨q, hq, rfl⟩ := List.mem_map.mp hs
    rcases h.origin q hq with ⟨p, hp, heq⟩ | ⟨hdetected, hdone, hnone, htyped⟩
    · refine .inl ⟨p, hp, ?_⟩
      rw [hg q, heq]
    · by_cases hid : q.id = existing.id
      · obtain ⟨type, hstays⟩ := h.stays existing hexisting
        have hsame := eq_of_key h.keyed.ids hq hstays hid
        refine .inl ⟨existing, hexisting, ?_⟩
        rw [hg q, hsame]
      · have hkept : g q = q := if_neg hid
        rw [hkept]
        exact .inr ⟨hdetected, List.mem_append_left _ hdone, hnone, htyped⟩
  · intro p hp
    obtain ⟨type, hstays⟩ := h.stays p hp
    refine ⟨(g { p with providerType := type }).providerType, ?_⟩
    rw [hrows]
    have hmem := List.mem_map_of_mem (f := g) hstays
    rw [hg] at hmem
    exact hmem
  · intro url hdone p hp s hs hid
    rw [hrows] at hs
    obtain ⟨q, hq, rfl⟩ := List.mem_map.mp hs
    rw [hg q] at hid
    obtain ⟨hpmem, hpat⟩ := detectedRow_spec hp
    by_cases hexists : q.id = existing.id
    · have hg' : g q = { q with providerType := info.providerType } := if_pos hexists
      have hsame := eq_of_key hk.ids hpmem hexisting (hid.symm.trans hexists)
      rw [hsame] at hpat
      rw [hg', ← hpat.2, hat]
      exact htype
    · have hkept : g q = q := if_neg hexists
      rw [hkept]
      rcases List.mem_append.mp hdone with hdone | hdone
      · exact h.typed url hdone p hp q hq hid
      · rw [List.mem_singleton] at hdone
        rw [hdone, hrow] at hp
        exact absurd (hid.trans (congrArg Provider.id (Option.some.inj hp)).symm) hexists
  · have hregistered : (register cipher o (some existing) r info).registered.map Detected.baseUrl =
        r.registered.map Detected.baseUrl ++ [info.baseUrl] := by
      simp [register]
    obtain ⟨type, hstays⟩ := h.stays existing hexisting
    have hhere : held r.rows info.baseUrl = true := held_iff.mpr ⟨_, hstays, hsource, hat⟩
    rw [hregistered, hrows, hheld, h.urls, List.filter_append, List.filter_singleton, hhere]
    rfl

/-- No name is free for the runtime. -/
theorem Reconciling.skip (h : Reconciling cipher rows o done r) (hurl : canonicalBaseUrl info.baseUrl = info.baseUrl)
    (hnew : info.baseUrl ∉ done) (hrow : detectedRow rows info.baseUrl = none) :
    Reconciling cipher rows o (done ++ [info.baseUrl]) r where
  keyed := h.keyed
  canonical := h.canonical_concat hurl
  origin := by
    intro q hq
    rcases h.origin q hq with hold | ⟨hdetected, hdone, hrest⟩
    · exact .inl hold
    · exact .inr ⟨hdetected, List.mem_append_left _ hdone, hrest⟩
  stays := h.stays
  typed := by
    intro url hdone p hp
    rcases List.mem_append.mp hdone with hdone | hdone
    · exact h.typed url hdone p hp
    · rw [List.mem_singleton] at hdone
      rw [hdone, hrow] at hp
      cases hp
  urls := by
    rw [h.urls, List.filter_append, List.filter_singleton, h.not_held hrow hnew]
    simp

/-- The runtime gets a row. -/
theorem Reconciling.add (h : Reconciling cipher rows o done r)
    (hurl : canonicalBaseUrl info.baseUrl = info.baseUrl) (hnew : info.baseUrl ∉ done)
    (hrow : detectedRow rows info.baseUrl = none) {q : Provider} {registered : List Detected}
    (hid : q.id = newId o r.rows) (hname : named r.rows q.name = none) (hsource : q.source = .detected)
    (hbase : q.baseUrl = info.baseUrl) (htype : q.providerType = typeAt cipher rows o info.baseUrl)
    (hregistered : registered.map Detected.baseUrl = r.registered.map Detected.baseUrl ++ [info.baseUrl]) :
    Reconciling cipher rows o (done ++ [info.baseUrl]) ⟨r.rows ++ [q], false, registered⟩ := by
  have hother : ∀ p ∈ rows, p.id ≠ q.id := by
    intro p hp
    obtain ⟨type, hstays⟩ := h.stays p hp
    have hfresh := newId_fresh o r.rows _ hstays
    rw [hid]
    exact hfresh
  have hat : DetectedAt info.baseUrl q := ⟨hsource, by rw [hbase, hurl]⟩
  refine ⟨h.keyed.append hid hname, h.canonical_concat hurl, ?_, ?_, ?_, ?_⟩
  · intro p hp
    rcases List.mem_append.mp hp with hp | hp
    · rcases h.origin p hp with hold | ⟨hdetected, hdone, hrest⟩
      · exact .inl hold
      · exact .inr ⟨hdetected, List.mem_append_left _ hdone, hrest⟩
    · rw [List.mem_singleton] at hp
      rw [hp, hbase]
      exact .inr ⟨hsource, List.mem_append_right _ (List.mem_singleton_self _), hrow, htype⟩
  · intro p hp
    obtain ⟨type, hstays⟩ := h.stays p hp
    exact ⟨type, List.mem_append_left _ hstays⟩
  · intro url hdone p hp s hs hsid
    have hpmem := (detectedRow_spec hp).1
    rcases List.mem_append.mp hdone with hdone | hdone
    · rcases List.mem_append.mp hs with hs | hs
      · exact h.typed url hdone p hp s hs hsid
      · rw [List.mem_singleton] at hs
        rw [hs] at hsid
        exact absurd hsid.symm (hother p hpmem)
    · rw [List.mem_singleton] at hdone
      rw [hdone, hrow] at hp
      cases hp
  · have hheld : ∀ url ∈ done, held (r.rows ++ [q]) url = held r.rows url := by
      intro url hdone
      have hnot : ¬ DetectedAt url q := by
        rintro ⟨-, heq⟩
        rw [hbase, hurl] at heq
        exact hnew (heq ▸ hdone)
      simp [held, hnot]
    have hhere : held (r.rows ++ [q]) info.baseUrl = true :=
      held_iff.mpr ⟨q, List.mem_append_right _ (List.mem_singleton_self _), hat⟩
    rw [hregistered, h.urls, List.filter_append, List.filter_singleton, hhere, List.filter_congr hheld]
    rfl

theorem Reconciling.register (hk : Keyed rows) (h : Reconciling cipher rows o done r)
    (hurl : canonicalBaseUrl info.baseUrl = info.baseUrl)
    (htype : info.providerType = typeAt cipher rows o info.baseUrl)
    (hnew : info.baseUrl ∉ done) :
    Reconciling cipher rows o (done ++ [info.baseUrl])
      (Providers.register cipher o (detectedRow rows info.baseUrl) r info) := by
  cases hrow : detectedRow rows info.baseUrl with
  | some existing => exact h.retype hk hurl htype hrow
  | none =>
    unfold Providers.register
    dsimp only
    cases hname : availableName r.rows info.name info.port with
    | none => exact h.skip hurl hnew hrow
    | some name => exact h.add hurl hnew hrow rfl (availableName_free hname) rfl rfl htype (by simp)

theorem Reconciling.run (hk : Keyed rows) {infos : List Detected} (h : Reconciling cipher rows o done r)
    (hinfos : ∀ info ∈ infos, canonicalBaseUrl info.baseUrl = info.baseUrl ∧
      info.providerType = typeAt cipher rows o info.baseUrl)
    (hnodup : (done ++ infos.map Detected.baseUrl).Nodup) :
    Reconciling cipher rows o (done ++ infos.map Detected.baseUrl)
      (infos.foldl (fun r info => Providers.register cipher o (detectedRow rows info.baseUrl) r info) r) := by
  induction infos generalizing done r with
  | nil =>
    rw [List.map_nil, List.append_nil]
    exact h
  | cons info infos ih =>
    obtain ⟨hurl, htype⟩ := hinfos info (List.mem_cons_self ..)
    have hnew : info.baseUrl ∉ done := by
      intro hdone
      rw [List.map_cons] at hnodup
      exact (List.nodup_append.mp hnodup).2.2 _ hdone _ (List.mem_cons_self ..) rfl
    rw [List.map_cons, List.append_cons] at hnodup ⊢
    exact ih (h.register hk hurl htype hnew) (fun i hi => hinfos i (List.mem_cons_of_mem _ hi)) hnodup

/-! ## What a scan leaves -/

/-- What a scan finds. -/
def found (cipher : Cipher) (rows : List Provider) (o : Outside) (gateway : String) : List Detected :=
  candidatePorts.filterMap (detectAt cipher rows o gateway)

variable {gateway : String}

theorem detectAt_spec {port : Nat} (h : detectAt cipher rows o gateway port = some info) :
    info.baseUrl = endpointUrl gateway port ∧ info.providerType = typeAt cipher rows o info.baseUrl := by
  unfold detectAt at h
  dsimp only at h
  split at h
  · obtain rfl := Option.some.inj h
    exact ⟨rfl, rfl⟩
  · cases h

theorem found_spec (h : info ∈ found cipher rows o gateway) :
    canonicalBaseUrl info.baseUrl = info.baseUrl ∧ info.providerType = typeAt cipher rows o info.baseUrl := by
  obtain ⟨port, -, hdetect⟩ := List.mem_filterMap.mp h
  obtain ⟨hurl, htype⟩ := detectAt_spec hdetect
  refine ⟨?_, htype⟩
  rw [hurl]
  exact canonicalBaseUrl_endpointUrl gateway port

theorem found_nodup (cipher : Cipher) (rows : List Provider) (o : Outside) (gateway : String) :
    ((found cipher rows o gateway).map Detected.baseUrl).Nodup := by
  have hsub : ∀ ports : List Nat, List.Sublist ((ports.filterMap (detectAt cipher rows o gateway)).map Detected.baseUrl)
      (ports.map (endpointUrl gateway)) := by
    intro ports
    induction ports with
    | nil => exact List.Sublist.slnil
    | cons port ports ih =>
      cases hdetect : detectAt cipher rows o gateway port with
      | none =>
        rw [List.filterMap_cons_none hdetect]
        exact ih.cons _
      | some info =>
        rw [List.filterMap_cons_some hdetect, List.map_cons, List.map_cons, (detectAt_spec hdetect).1]
        exact ih.cons_cons _
  exact (hsub candidatePorts).nodup (endpointUrls_nodup gateway)

theorem run_reconciling (hk : Keyed rows) (cipher : Cipher) (o : Outside) (gateway : String) :
    Reconciling cipher rows o ((found cipher rows o gateway).map Detected.baseUrl)
      (registering cipher rows o gateway) :=
  (reconciling_start cipher hk o _).run hk (fun _ => found_spec) (found_nodup cipher rows o gateway)

theorem mem_scanned (hg : localGateway o = some gateway) {q : Provider} :
    q ∈ (scanLocalAi cipher rows o).2 ↔
      q ∈ (registering cipher rows o gateway).rows ∧ departed cipher rows o gateway q = false := by
  rw [scanLocal_eq hg, List.mem_filter, Bool.not_eq_true']

variable (hk : Keyed rows) (hg : localGateway o = some gateway)
include hk hg

/-- An endpoint that answers keeps its rows. -/
theorem held_scanned {url : String} (h : url ∈ (found cipher rows o gateway).map Detected.baseUrl) :
    held (scanLocalAi cipher rows o).2 url = held (registering cipher rows o gateway).rows url := by
  have hpresent := detectAt_present h
  rw [(run_reconciling hk cipher o gateway).canonical url h] at hpresent
  rw [Bool.eq_iff_iff, held_iff, held_iff]
  constructor
  · rintro ⟨q, hq, hat⟩
    exact ⟨q, ((mem_scanned hg).mp hq).1, hat⟩
  · rintro ⟨q, hq, hat⟩
    refine ⟨q, (mem_scanned hg).mpr ⟨hq, ?_⟩, hat⟩
    simp [departed, hat.2, hpresent]

/-- The endpoints a scan registers are those that have a row when it is over. -/
theorem registered_urls :
    (scanLocalAi cipher rows o).1.detected.map Detected.baseUrl =
      ((found cipher rows o gateway).map Detected.baseUrl).filter (held (scanLocalAi cipher rows o).2) := by
  have hdetected : (scanLocalAi cipher rows o).1.detected = (registering cipher rows o gateway).registered := by
    unfold scanLocalAi
    rw [hg]
    rfl
  rw [hdetected, (run_reconciling hk cipher o gateway).urls]
  refine List.filter_congr ?_
  intro url hurl
  exact (held_scanned hk hg hurl).symm

/-- When a scan is over the row at an endpoint that answered has the type of its runtime. -/
theorem scanned_typed {url : String} (h : url ∈ (found cipher rows o gateway).map Detected.baseUrl) {q : Provider}
    (hq : detectedRow (scanLocalAi cipher rows o).2 url = some q) : q.providerType = typeAt cipher rows o url := by
  have hrun := run_reconciling hk cipher o gateway
  have hpresent := detectAt_present h
  rw [hrun.canonical url h] at hpresent
  obtain ⟨hmem, hsource, hat⟩ := detectedRow_spec hq
  have hqrun := ((mem_scanned hg).mp hmem).1
  rcases hrun.origin q hqrun with ⟨p, hp, heq⟩ | ⟨-, hdone, -, htyped⟩
  · have hpat : DetectedAt url p := by
      rw [heq] at hsource hat
      exact ⟨hsource, hat⟩
    cases hrow : detectedRow rows url with
    | none => exact absurd hpat (not_held_iff.mp (detectedRow_eq_none.mp hrow) p hp)
    | some first =>
      -- the oldest row at the endpoint is still there, and still the oldest
      obtain ⟨hfirst, hfirstAt⟩ := detectedRow_spec hrow
      obtain ⟨type, hstays⟩ := hrun.stays first hfirst
      have hscanned : { first with providerType := type } ∈ (scanLocalAi cipher rows o).2 := by
        refine (mem_scanned hg).mpr ⟨hstays, ?_⟩
        simp [departed, hfirstAt.2, hpresent]
      have hafter : Older q { first with providerType := type } := detectedRow_oldest hq _ hscanned hfirstAt
      have hbefore : Older { first with providerType := type } q := by
        rw [heq]
        exact detectedRow_oldest hrow p hp hpat
      exact hrun.typed url h first hrow q hqrun (older_antisymm hafter hbefore)
  · rw [hrun.canonical _ hdone] at hat
    rw [htyped, hat]

end Scan

/-! ## A second scan -/

section Second

variable {cipher : Cipher} {rows rows' : List Provider} {o o' : Outside} {gateway : String}

/-- The endpoints answer the second scan as the first. -/
structure SameAnswers (cipher : Cipher) (rows rows' : List Provider) (o o' : Outside) : Prop where
  gateway : localGateway o' = localGateway o
  probe : ∀ gateway, localGateway o = some gateway → ∀ port ∈ candidatePorts,
    probeAt cipher rows' o' (endpointUrl gateway port) = probeAt cipher rows o (endpointUrl gateway port)
  type : ∀ gateway, localGateway o = some gateway → ∀ port ∈ candidatePorts,
    typeAt cipher rows' o' (endpointUrl gateway port) = typeAt cipher rows o (endpointUrl gateway port)

theorem SameAnswers.found (h : SameAnswers cipher rows rows' o o') (hg : localGateway o = some gateway) :
    found cipher rows' o' gateway = found cipher rows o gateway := by
  refine List.filterMap_congr ?_
  intro port hport
  have htype := h.type gateway hg port hport
  unfold typeAt at htype
  unfold detectAt
  dsimp only
  rw [h.probe gateway hg port hport, htype]

theorem SameAnswers.departed (h : SameAnswers cipher rows rows' o o') (hg : localGateway o = some gateway)
    (p : Provider) :
    departed cipher rows' o' gateway p = departed cipher rows o gateway p := by
  unfold Providers.departed presentAt
  rw [Bool.eq_iff_iff]
  simp only [Bool.and_eq_true, Bool.not_eq_true', List.any_eq_false]
  refine and_congr_right fun _ => forall₂_congr fun port hport => ?_
  rw [h.probe gateway hg port hport]

/-- No runtime is without a row that finds a name now. -/
def NoneToName (cipher : Cipher) (rows : List Provider) (o : Outside) : Prop :=
  ∀ gateway, localGateway o = some gateway → NothingNew cipher rows o gateway

/-- Registering changes no row of the runtime's type, and none where no name is free. -/
theorem register_unchanged (cipher : Cipher) (o : Outside) (hk : Keyed rows) {r : Registering} (hr : r.rows = rows)
    {info : Detected}
    (htyped : ∀ q, detectedRow rows info.baseUrl = some q → q.providerType = info.providerType)
    (hnone : detectedRow rows info.baseUrl = none → availableName rows info.name info.port = none) :
    (register cipher o (detectedRow rows info.baseUrl) r info).rows = rows := by
  cases hrow : detectedRow rows info.baseUrl with
  | some existing =>
    have hsame : ∀ p ∈ rows, (if p.id = existing.id then { p with providerType := info.providerType } else p) = p := by
      intro p hp
      by_cases hid : p.id = existing.id
      · obtain rfl := eq_of_key hk.ids hp (detectedRow_spec hrow).1 hid
        rw [if_pos rfl, ← htyped p hrow]
      · rw [if_neg hid]
    have hmap : (register cipher o (some existing) r info).rows =
        r.rows.map fun p => if p.id = existing.id then { p with providerType := info.providerType } else p := rfl
    rw [hmap, hr, List.map_congr_left hsame, List.map_id']
  | none =>
    unfold register
    dsimp only
    rw [hr, hnone hrow]
    exact hr

theorem run_unchanged (hk : Keyed rows) {infos : List Detected} {r : Registering} (hr : r.rows = rows)
    (htyped : ∀ info ∈ infos, ∀ q, detectedRow rows info.baseUrl = some q → q.providerType = info.providerType)
    (hnone : ∀ info ∈ infos, detectedRow rows info.baseUrl = none → availableName rows info.name info.port = none) :
    (infos.foldl (fun r info => register cipher o (detectedRow rows info.baseUrl) r info) r).rows = rows := by
  induction infos generalizing r with
  | nil => exact hr
  | cons info infos ih =>
    have hstep := register_unchanged cipher o hk hr (htyped info (List.mem_cons_self ..))
      (hnone info (List.mem_cons_self ..))
    exact ih hstep (fun i hi => htyped i (List.mem_cons_of_mem _ hi)) (fun i hi => hnone i (List.mem_cons_of_mem _ hi))

/-- The second scan removes nothing. -/
theorem second_keeps (hg : localGateway o = some gateway)
    (h : SameAnswers cipher rows (scanLocalAi cipher rows o).2 o o') {q : Provider}
    (hq : q ∈ (scanLocalAi cipher rows o).2) :
    departed cipher (scanLocalAi cipher rows o).2 o' gateway q = false := by
  rw [h.departed hg]
  exact ((mem_scanned hg).mp hq).2

variable (hk : Keyed rows) (hg : localGateway o = some gateway)
  (h : SameAnswers cipher rows (scanLocalAi cipher rows o).2 o o')
include hk hg h

/-- The second scan changes no row exactly if no runtime without one finds a name. -/
theorem second_rows_iff :
    (scanLocalAi cipher (scanLocalAi cipher rows o).2 o').2 = (scanLocalAi cipher rows o).2 ↔
      NoneToName cipher (scanLocalAi cipher rows o).2 o' := by
  have hkeyed : Keyed (scanLocalAi cipher rows o).2 := scanLocal_keyed hk o
  have hg' : localGateway o' = some gateway := h.gateway.trans hg
  have hkept : ∀ q ∈ (scanLocalAi cipher rows o).2,
      (!departed cipher (scanLocalAi cipher rows o).2 o' gateway q) = true := by
    intro q hq
    rw [second_keeps hg h hq]
    rfl
  have hiff : NoneToName cipher (scanLocalAi cipher rows o).2 o' ↔
      NothingNew cipher (scanLocalAi cipher rows o).2 o' gateway := by
    constructor
    · exact fun hall => hall gateway hg'
    · intro hall other hother
      obtain rfl := Option.some.inj (hg'.symm.trans hother)
      exact hall
  rw [hiff]
  constructor
  · intro heq
    obtain ⟨r, f, new, hgrown, -, hrows⟩ := scanLocal_rows cipher hkeyed hg'
    refine hgrown.nothing.mp ?_
    rw [heq, List.filter_eq_self.mpr hkept] at hrows
    have hlength := congrArg List.length hrows
    rw [List.length_append, List.length_map] at hlength
    exact List.length_eq_zero_iff.mp (by omega)
  · intro hnone
    have hrun : (registering cipher (scanLocalAi cipher rows o).2 o' gateway).rows = (scanLocalAi cipher rows o).2 := by
      refine run_unchanged hkeyed rfl ?_ hnone
      intro info hinfo q hq
      have hfound := h.found hg
      have hinfo' : info ∈ found cipher rows o gateway := hfound ▸ hinfo
      rw [(found_spec hinfo').2]
      exact scanned_typed hk hg (List.mem_map_of_mem hinfo') hq
    rw [scanLocal_eq hg', hrun]
    exact List.filter_eq_self.mpr hkept

/-- Where the rows stay, the second scan registers the same endpoints. -/
theorem second_registered
    (hrows : (scanLocalAi cipher (scanLocalAi cipher rows o).2 o').2 = (scanLocalAi cipher rows o).2) :
    (scanLocalAi cipher (scanLocalAi cipher rows o).2 o').1.detected.map Detected.baseUrl =
      (scanLocalAi cipher rows o).1.detected.map Detected.baseUrl := by
  rw [registered_urls hk hg, registered_urls (scanLocal_keyed hk o) (h.gateway.trans hg), hrows, h.found hg]

end Second

/-! ## The settings -/

section Settings

variable {ids : Ids} {models : Provider → Option (List String)} {cipher : Cipher} {t : Tables} {o o' : Outside}

/-- A role is set. -/
def RoleSet (settings : Rows) : Prop := ∃ key ∈ roleSettings, chosen (settings key) = true

/-- What a scan does to the providers and to the roles that are set. -/
structure Careful (ids : Ids) (cipher : Cipher) (t t' : Tables) (o : Outside) : Prop where
  /-- It removes what it has detected before and what does not answer now. -/
  reaped : ∀ p ∈ t.providers, Gone t'.providers p.id → p.source = .detected ∧
    ∃ gateway, localGateway o = some gateway ∧ ∀ port ∈ candidatePorts,
      endpointUrl gateway port = canonicalBaseUrl p.baseUrl →
        probeAt cipher t.providers o (endpointUrl gateway port) = .noAnswer
  kept : ∀ p ∈ t.providers, ∀ q ∈ t'.providers, q.id = p.id → q = { p with providerType := q.providerType }
  roles : RoleSet t.settings → ∀ key ∈ roleSettings, t'.settings key = t.settings key ∨
    t'.settings key = some noModel ∧ ∃ p ∈ t.providers, Gone t'.providers p.id ∧
      ∃ value, t.settings key = some value ∧ refersTo ids p.id value = true

/-- Nothing is left for a second scan to do: no runtime without a row finds a name, and where
    a role was set one still is, or there is no sole model to set it to. -/
structure Settled (models : Provider → Option (List String)) (cipher : Cipher) (t t' : Tables) (o' : Outside) :
    Prop where
  names : NoneToName cipher t'.providers o'
  roles : RoleSet t.settings → RoleSet t'.settings ∨
    ∀ p, registeredProvider cipher t' o' = some p → ∀ model, models p ≠ some [model]

theorem scanLocal_none (ids : Ids) (models : Provider → Option (List String)) (cipher : Cipher) (t : Tables)
    (hg : localGateway o = none) : (scanLocal ids models cipher t o).2 = t := by
  unfold scanLocal
  rw [hg]

theorem not_establishes_of_roleSet (h : RoleSet t.settings) : ¬ Establishes models cipher t o := by
  rintro ⟨hroles, -⟩
  obtain ⟨key, hkey, hchosen⟩ := h
  rw [hroles key hkey] at hchosen
  cases hchosen

section Available

variable {gateway : String} (hg : localGateway o = some gateway)
include hg

theorem scanLocal_providers (ids : Ids) (models : Provider → Option (List String)) (cipher : Cipher) (t : Tables) :
    (scanLocal ids models cipher t o).2.providers = (scanLocalAi cipher t.providers o).2 := by
  unfold scanLocal
  rw [hg]

theorem scanLocal_settings (ids : Ids) (models : Provider → Option (List String)) (cipher : Cipher) (t : Tables) :
    (scanLocal ids models cipher t o).2.settings = (established ids models cipher t o gateway).2 := by
  unfold scanLocal
  rw [hg]

theorem scanLocal_profiles (ids : Ids) (models : Provider → Option (List String)) (cipher : Cipher) (t : Tables) :
    (scanLocal ids models cipher t o).2.profiles = t.profiles := by
  unfold scanLocal
  rw [hg]

theorem scan_reaped {p : Provider} (hp : p ∈ t.providers)
    (hgone : Gone (scanLocal ids models cipher t o).2.providers p.id) :
    p.source = .detected ∧ ∀ port ∈ candidatePorts, endpointUrl gateway port = canonicalBaseUrl p.baseUrl →
      probeAt cipher t.providers o (endpointUrl gateway port) = .noAnswer := by
  rw [scanLocal_providers hg, gone_scanLocal t.keyed hg hp] at hgone
  unfold departed presentAt at hgone
  simp only [Bool.and_eq_true, decide_eq_true_eq, Bool.not_eq_true', List.any_eq_false] at hgone
  obtain ⟨hsource, hpresent⟩ := hgone
  refine ⟨hsource, fun port hport heq => ?_⟩
  have hnot : (probeAt cipher t.providers o (endpointUrl gateway port)).present = false := by
    by_contra hyes
    exact hpresent port hport ⟨heq, by simpa using hyes⟩
  cases hprobe : probeAt cipher t.providers o (endpointUrl gateway port) with
  | noAnswer => rfl
  | answered items =>
    rw [hprobe] at hnot
    cases hnot
  | unauthorized =>
    rw [hprobe] at hnot
    cases hnot
  | error =>
    rw [hprobe] at hnot
    cases hnot

theorem scan_kept {p q : Provider} (hp : p ∈ t.providers) (hq : q ∈ (scanLocal ids models cipher t o).2.providers)
    (hid : q.id = p.id) : q = { p with providerType := q.providerType } := by
  have hrun := run_reconciling t.keyed cipher o gateway
  rw [scanLocal_providers hg] at hq
  obtain ⟨type, hstays⟩ := hrun.stays p hp
  rw [eq_of_key hrun.keyed.ids ((mem_scanned hg).mp hq).1 hstays hid]

/-- A key that is not set anew is unchanged, or cleared with a provider it names. -/
theorem reaped_cases (ids : Ids) (models : Provider → Option (List String)) (cipher : Cipher) (t : Tables)
    (key : String) :
    reapedSettings ids cipher t o gateway key = t.settings key ∨
      reapedSettings ids cipher t o gateway key = some noModel ∧
        ∃ p ∈ t.providers, Gone (scanLocal ids models cipher t o).2.providers p.id ∧
          ∃ value, t.settings key = some value ∧ refersTo ids p.id value = true := by
  unfold reapedSettings
  rw [clearAll_eq]
  split
  · rename_i hcleared
    obtain ⟨-, hnames⟩ := Bool.and_eq_true_iff.mp hcleared
    cases hvalue : t.settings key with
    | none =>
      rw [hvalue] at hnames
      cases hnames
    | some value =>
      rw [hvalue] at hnames
      obtain ⟨id, hid, hrefers⟩ := List.any_eq_true.mp hnames
      obtain ⟨p, hp, hdeparted, rfl⟩ := (departed_iff t.keyed).mp hid
      refine .inr ⟨rfl, p, hp, ?_, value, rfl, hrefers⟩
      rw [scanLocal_providers hg]
      exact (gone_scanLocal t.keyed hg hp).mpr hdeparted
  · exact .inl rfl

end Available

theorem careful (ids : Ids) (models : Provider → Option (List String)) (cipher : Cipher) (t : Tables) (o : Outside) :
    Careful ids cipher t (scanLocal ids models cipher t o).2 o := by
  cases hg : localGateway o with
  | none =>
    rw [scanLocal_none ids models cipher t hg]
    refine ⟨fun p hp hgone => absurd rfl (hgone p hp), fun p hp q hq hid => ?_, fun _ key _ => .inl rfl⟩
    rw [eq_of_key t.keyed.ids hq hp hid]
  | some gateway =>
    refine ⟨fun p hp hgone => ?_, fun p hp q hq hid => scan_kept hg hp hq hid, fun hset key _ => ?_⟩
    · obtain ⟨hsource, hnothing⟩ := scan_reaped hg hp hgone
      exact ⟨hsource, gateway, hg, hnothing⟩
    · rw [scanLocal_settings hg, established_not ids gateway (not_establishes_of_roleSet hset)]
      exact reaped_cases hg ids models cipher t key

theorem tables_eq_iff {a b : Tables} :
    a = b ↔ a.providers = b.providers ∧ a.settings = b.settings ∧ a.profiles = b.profiles := by
  obtain ⟨providers, settings, profiles, keyed⟩ := a
  obtain ⟨providers', settings', profiles', keyed'⟩ := b
  simp

theorem registeredProvider_eq (cipher : Cipher) (t : Tables) (o : Outside) :
    registeredProvider cipher t o =
      ((scanLocalAi cipher t.providers o).1.detected.map Detected.baseUrl).head?.bind fun url =>
        detectedRow (scanLocalAi cipher t.providers o).2 (canonicalBaseUrl url) := by
  rw [List.head?_map, Option.bind_map]
  rfl

theorem setModelSelection_twice (rows : Rows) (p : Provider) (model : String) :
    setModelSelection ids (setModelSelection ids rows p model) p model = setModelSelection ids rows p model := by
  funext key
  unfold setModelSelection
  split <;> rfl

section Again

variable {gateway : String} {t' : Tables} (hg : localGateway o = some gateway)
  (ht' : (scanLocal ids models cipher t o).2 = t')
include hg ht'

theorem again_providers : t'.providers = (scanLocalAi cipher t.providers o).2 := by
  rw [← ht', scanLocal_providers hg]

variable (h : SameAnswers cipher t.providers t'.providers o o')
include h

theorem again_rows_iff :
    (scanLocal ids models cipher t' o').2.providers = t'.providers ↔ NoneToName cipher t'.providers o' := by
  have hproviders := again_providers hg ht'
  rw [scanLocal_providers (h.gateway.trans hg)]
  rw [hproviders] at h ⊢
  exact second_rows_iff t.keyed hg h

/-- Nothing departs, and nothing is cleared. -/
theorem again_reaped : reapedSettings ids cipher t' o' gateway = t'.settings := by
  have hproviders := again_providers hg ht'
  have hnone : ((registering cipher t'.providers o' gateway).rows.filter
      (departed cipher t'.providers o' gateway)).map Provider.id = [] := by
    refine List.eq_nil_iff_forall_not_mem.mpr fun id hid => ?_
    obtain ⟨p, hp, hdeparted, -⟩ := (departed_iff t'.keyed).mp hid
    rw [hproviders] at h hp hdeparted
    rw [second_keeps hg h hp] at hdeparted
    cases hdeparted
  unfold reapedSettings
  rw [hnone]
  rfl

/-- The provider the first scan put forward is the one the second does. -/
theorem again_registered (hrows : (scanLocal ids models cipher t' o').2.providers = t'.providers) :
    registeredProvider cipher t' o' = registeredProvider cipher t o := by
  have hproviders := again_providers hg ht'
  rw [scanLocal_providers (h.gateway.trans hg), hproviders] at hrows
  rw [hproviders] at h
  rw [registeredProvider_eq, registeredProvider_eq, hproviders, second_registered t.keyed hg h hrows, hrows]

theorem again_settings_iff (hrows : (scanLocal ids models cipher t' o').2.providers = t'.providers) :
    (scanLocal ids models cipher t' o').2.settings = t'.settings ↔
      (RoleSet t.settings → RoleSet t'.settings ∨
        ∀ p, registeredProvider cipher t' o' = some p → ∀ model, models p ≠ some [model]) := by
  have hreaped := again_reaped hg ht' h
  rw [scanLocal_settings (h.gateway.trans hg)]
  by_cases hestablishes : Establishes models cipher t' o'
  · obtain ⟨p, model, hp, hmodels, heq⟩ := established_of ids gateway hestablishes
    have hunset : ¬ RoleSet t'.settings := by
      rintro ⟨key, hkey, hchosen⟩
      rw [hestablishes.1 key hkey] at hchosen
      cases hchosen
    rw [heq, hreaped]
    constructor
    · rintro hsame ⟨key, hkey, hchosen⟩
      exfalso
      have hset : t'.settings key = some (selectionOf ids p.id model) := by
        rw [← hsame]
        exact if_pos (List.contains_iff_mem.mpr hkey)
      have hcareful := (careful ids models cipher t o).roles ⟨key, hkey, hchosen⟩ key hkey
      rw [ht'] at hcareful
      rcases hcareful with hkept | ⟨hcleared, -⟩
      · exact hunset ⟨key, hkey, by rw [hkept]; exact hchosen⟩
      · rw [hset] at hcleared
        have hfields := Json.obj.inj (Option.some.inj hcleared)
        cases congrArg Prod.snd (List.cons.inj hfields).1
    · intro hroles
      have hbefore : Establishes models cipher t o := by
        refine ⟨fun key hkey => ?_, p, model, ?_, hmodels⟩
        · by_contra hchosen
          rcases hroles ⟨key, hkey, by simpa using hchosen⟩ with hset | hnone
          · exact hunset hset
          · exact hnone p hp model hmodels
        · rw [← again_registered hg ht' h hrows]
          exact hp
      obtain ⟨p', model', hp', hmodels', heq'⟩ := established_of ids gateway hbefore
      rw [again_registered hg ht' h hrows, hp'] at hp
      obtain rfl := Option.some.inj hp
      rw [hmodels] at hmodels'
      obtain rfl := (List.cons.inj (Option.some.inj hmodels')).1
      have hsettings : t'.settings = setModelSelection ids (reapedSettings ids cipher t o gateway) p' model := by
        rw [← ht', scanLocal_settings hg, heq']
      rw [hsettings]
      exact setModelSelection_twice _ _ _
  · rw [established_not ids gateway hestablishes]
    refine iff_of_true hreaped fun _ => ?_
    by_contra hnot
    rw [not_or] at hnot
    obtain ⟨hunset, hsole⟩ := hnot
    push Not at hsole
    obtain ⟨p, hp, model, hmodels⟩ := hsole
    refine hestablishes ⟨fun key hkey => ?_, p, model, hp, hmodels⟩
    by_contra hchosen
    exact hunset ⟨key, hkey, by simpa using hchosen⟩

end Again

/-- A second scan with the same answers changes nothing exactly if nothing is left to do. -/
theorem again_iff {t' : Tables} (ht' : (scanLocal ids models cipher t o).2 = t')
    (h : SameAnswers cipher t.providers t'.providers o o') :
    (scanLocal ids models cipher t' o').2 = t' ↔ Settled models cipher t t' o' := by
  cases hg : localGateway o with
  | none =>
    have hg' : localGateway o' = none := h.gateway.trans hg
    rw [scanLocal_none ids models cipher t hg] at ht'
    refine iff_of_true (scanLocal_none ids models cipher t' hg') ⟨fun gateway hgateway => ?_, fun hset => .inl ?_⟩
    · rw [hg'] at hgateway
      cases hgateway
    · rw [← ht']
      exact hset
  | some gateway =>
    rw [tables_eq_iff]
    constructor
    · rintro ⟨hrows, hsettings, -⟩
      exact ⟨(again_rows_iff hg ht' h).mp hrows, (again_settings_iff hg ht' h hrows).mp hsettings⟩
    · intro hsettled
      have hrows := (again_rows_iff hg ht' h).mpr hsettled.names
      have hprofiles := scanLocal_profiles (h.gateway.trans hg) ids models cipher t'
      exact ⟨hrows, (again_settings_iff hg ht' h hrows).mpr hsettled.roles, hprofiles⟩

/-- A scan removes no runtime that is there, keeps of the rows all but their types, and
    replaces no choice; a second one with the same answers changes nothing exactly if nothing
    is left to do. -/
theorem scan_careful (ids : Ids) (models : Provider → Option (List String)) (cipher : Cipher) (t : Tables)
    (o : Outside) :
    Careful ids cipher t (scanLocal ids models cipher t o).2 o ∧
      ∀ o', SameAnswers cipher t.providers (scanLocal ids models cipher t o).2.providers o o' →
        ((scanLocal ids models cipher (scanLocal ids models cipher t o).2 o').2 = (scanLocal ids models cipher t o).2 ↔
          Settled models cipher t (scanLocal ids models cipher t o).2 o') :=
  ⟨careful ids models cipher t o, fun _ h => again_iff rfl h⟩

end Settings

/-! ## The runtime of both roles departs -/

def lmStudio : Provider :=
  ⟨0, "lm-studio", "http://host.docker.internal:1234/v1", "", .openaiCompatible, true, .detected, 0⟩

def ollama : Provider :=
  ⟨1, "ollama", "http://host.docker.internal:11434/v1", "", .openaiCompatible, false, .detected, 0⟩

def chosenDeparting : Tables where
  providers := [lmStudio, ollama]
  settings key := if key ∈ roleSettings then some (selectionOf sampleIds 0 "qwen") else none
  profiles := []
  keyed := ⟨by decide, by decide⟩

/-- Only the second runtime answers. -/
def answering : Outside where
  http url _ :=
    if url = "http://host.docker.internal:11434/v1/models" then some ⟨200, some (.obj [("data", .arr [])])⟩ else none
  uuid4 := largest
  now := 1
  containerRuntime := none
  hostGateway := none

/-- The runtime takes any key. -/
theorem answering_http (url key key' : String) : answering.http url key = answering.http url key' := rfl

theorem answering_same (rows rows' : List Provider) : SameAnswers plain rows rows' answering answering := by
  refine ⟨rfl, fun gateway _ port _ => ?_, fun gateway _ port _ => ?_⟩
  · unfold probeAt probeLocalEndpoint
    rw [answering_http _ _ (storedKey plain rows (endpointUrl gateway port))]
  · unfold typeAt resolvedType probeProviderType
    simp only [answering_http _ _ (storedKey plain rows (endpointUrl gateway port))]

theorem ollama_stays : (scanLocalAi plain [lmStudio, ollama] answering).2 = [ollama] := by decide +kernel

theorem ollama_registered {t : Tables} (h : t.providers = [ollama]) :
    registeredProvider plain t answering = some ollama := by
  unfold registeredProvider
  rw [h]
  decide +kernel

theorem roles_cleared : ∀ key ∈ roleSettings,
    chosen (reapedSettings sampleIds plain chosenDeparting answering "host.docker.internal" key) = false := by
  decide

/-- The first scan clears both roles with the runtime that has departed, and the second sets
    them to the model of the one that has not. -/
theorem a_second_scan_chooses :
    ¬ ∀ (ids : Ids) (models : Provider → Option (List String)) (cipher : Cipher) (t : Tables) (o : Outside),
      Careful ids cipher t (scanLocal ids models cipher t o).2 o ∧
        ∀ o', SameAnswers cipher t.providers (scanLocal ids models cipher t o).2.providers o o' →
          (scanLocal ids models cipher (scanLocal ids models cipher t o).2 o').2 =
            (scanLocal ids models cipher t o).2 := by
  intro h
  obtain ⟨-, hagain⟩ := h sampleIds (fun _ => some ["llama3"]) plain chosenDeparting answering
  have hgateway : localGateway answering = some "host.docker.internal" := rfl
  have hset : RoleSet chosenDeparting.settings := ⟨"llm_model", by decide, by decide⟩
  have hproviders := scanLocal_providers hgateway sampleIds (fun _ => some ["llama3"]) plain chosenDeparting
  have hsettings := scanLocal_settings hgateway sampleIds (fun _ => some ["llama3"]) plain chosenDeparting
  rw [established_not sampleIds _ (not_establishes_of_roleSet hset)] at hsettings
  have hsettled := (again_iff rfl (answering_same _ _)).mp (hagain answering (answering_same _ _))
  rcases hsettled.roles hset with ⟨key, hkey, hchosen⟩ | hnone
  · rw [hsettings, roles_cleared key hkey] at hchosen
    cases hchosen
  · exact hnone ollama (ollama_registered (hproviders.trans ollama_stays)) "llama3" rfl

end Errand.Server.LocalScans

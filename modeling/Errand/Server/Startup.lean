import Errand.Lib.Machine
import Errand.Lib.Slots
import Errand.Server.SettingsRegistry

/-
  Errand.Server.Startup — the settings a server process makes sure of when it starts
  (`lifespan` of `main.py`, `ensure_hindsight_token` of `settings_registry.py`).

  Any number of processes start on an empty database, with one environment. Each looks for
  a row in one statement and, where there is none, inserts one in another; the key of a
  setting is the table's primary key, so a commit of a key that is there by then raises and
  ends the startup. Only the Hindsight bearer's insert is caught: the process adopts the row
  that is there. That bearer's row is looked for twice, once for its value and once to write
  it. The pair of keys is generated from a seed, a token is any text that is not empty.

  Proved:
  - `replicas_boot_iff`: no startup is aborted, and no value that a running process has
    handed out is replaced, exactly in the runs in which no process loses the race for a row
    it has not found, and none writes over a bearer that is handed out; a process that runs
    has its keys, its pair and its bearer, and one that does not yet goes on.
  - `a_replica_aborts`: two processes that look for the API key together.
  - `the_bearer_is_replaced`: a bearer stored between a process's two looks is overwritten.
-/

namespace Errand.Server.Startup

open Errand.Lib Errand.Server.SettingsRegistry

/-- What a process draws at random: `secrets.token_hex(32)`, and the seed of a key pair. -/
structure Draw where
  token : String
  seed : Nat
  drawn : token ≠ ""

/-- What is looked for and, if absent, inserted. -/
inductive Statement where
  | mcpApiKey
  | systemPrompt
  | sshKeypair
  | gitSshHosts
  | jwtSigningSecret
  deriving DecidableEq, Repr

def Statement.key : Statement → String
  | .mcpApiKey => "mcp_api_key"
  | .systemPrompt => "system_prompt"
  | .sshKeypair => "ssh_private_key"
  | .gitSshHosts => "git_ssh_hosts"
  | .jwtSigningSecret => "jwt_signing_secret"

def defaultPrompt : String :=
  "You are a helpful personal assistant. When you are asked to perform a task, " ++
  "carry it out to the best of your ability.\n" ++
  "\n" ++
  "RULES:\n" ++
  "- Verify your results before you finish. Make sure that you have addressed " ++
  "all the requirements and not missed any.\n" ++
  "- If you need clarification on an issue that is preventing you from completing " ++
  "the task, ask the user specific targeted questions that will provide the " ++
  "clarification needed to complete the task."

variable (builtins : Builtins) (env : String → Option String) (generateSshKeypair : Nat → String × String)

def Statement.rows (draw : Draw) : Statement → List (String × Json)
  | .mcpApiKey => [("mcp_api_key", .str draw.token)]
  | .systemPrompt => [("system_prompt", .str defaultPrompt)]
  | .sshKeypair =>
    [("ssh_private_key", .str (generateSshKeypair draw.seed).1),
     ("ssh_public_key", .str (generateSshKeypair draw.seed).2)]
  | .gitSshHosts => [("git_ssh_hosts", .arr [.str "github.com", .str "bitbucket.org"])]
  | .jwtSigningSecret => [("jwt_signing_secret", .str draw.token)]

inductive Phase where
  | looking (statement : Statement)
  | inserting (statement : Statement) (draw : Draw)
  | hindsightUrl
  | hindsightToken
  | hindsightRow
  /-- About to commit the bearer, into a row that is there or into a new one. -/
  | hindsightCommit (generated : Draw) (existing : Bool)
  | hindsightAdopt
  | adminLooking
  | adminInserting (username : String)
  | running
  | aborted

def Statement.next : Statement → Phase
  | .mcpApiKey => .looking .systemPrompt
  | .systemPrompt => .looking .sshKeypair
  | .sshKeypair => .looking .gitSshHosts
  | .gitSshHosts => .hindsightUrl
  | .jwtSigningSecret => .adminLooking

structure St where
  settings : String → Option Json
  users : List String
  procs : List Phase
  /-- The values that running processes have handed out. -/
  handed : List (String × Json)

def start : St := ⟨fun _ => none, [], [], []⟩

inductive Event where
  | spawn
  /-- Process `i` executes its next statement. -/
  | advance (i : Nat) (draw : Draw)
  /-- Process `i`, which runs, hands out a setting. -/
  | handOut (i : Nat) (key : String)

def setPhase (i : Nat) (phase : Phase) (s : St) : St := { s with procs := s.procs.set i phase }

/-- The commit of rows whose keys are absent. -/
def insertRows (rows : List (String × Json)) (s : St) : St :=
  { s with settings := fun key => Dict.get? rows key <|> s.settings key }

def updateRow (key : String) (value : Json) (s : St) : St :=
  { s with settings := fun k => if k = key then some value else s.settings k }

def resolve (s : St) (key : String) (info : Meta) : Json := (resolveSettingValue builtins env s.settings key info).1

def absent (s : St) (rows : List (String × Json)) : Bool := rows.all fun row => (s.settings row.1).isNone

/-- `ADMIN_USERNAME` and `ADMIN_PASSWORD`, if both are set. -/
def admin : Option (String × String) :=
  match (env "ADMIN_USERNAME").filter (· ≠ ""), (env "ADMIN_PASSWORD").filter (· ≠ "") with
  | some username, some password => some (username, password)
  | _, _ => none

/-- Where the look for the administrator leads. -/
def adminFound (s : St) : Phase :=
  match admin env with
  | none => .running
  | some (username, password) =>
    if s.users.contains username then .running
    else if 72 < password.utf8ByteSize then .running
    else .adminInserting username

def tokenRow : String := "hindsight_token"

/-- The next statement of process `i`. -/
def advance (i : Nat) (draw : Draw) (s : St) : Phase → Option St
  | .looking statement =>
    some (setPhase i (if (s.settings statement.key).isSome then statement.next else .inserting statement draw) s)
  | .inserting statement generated =>
    let rows := statement.rows generateSshKeypair generated
    some (if absent s rows then setPhase i statement.next (insertRows rows s) else setPhase i .aborted s)
  | .hindsightUrl =>
    some (setPhase i
      (if (resolve builtins env s "hindsight_url" hindsightUrl).truthy then .hindsightToken
       else .looking .jwtSigningSecret) s)
  | .hindsightToken =>
    some (setPhase i
      (if (resolve builtins env s tokenRow hindsightToken).truthy then .looking .jwtSigningSecret
       else .hindsightRow) s)
  | .hindsightRow => some (setPhase i (.hindsightCommit draw (s.settings tokenRow).isSome) s)
  | .hindsightCommit generated true =>
    some (if (s.settings tokenRow).isSome then
        setPhase i (.looking .jwtSigningSecret) (updateRow tokenRow (.str generated.token) s)
      else setPhase i .aborted s)
  | .hindsightCommit generated false =>
    let rows : List (String × Json) := [(tokenRow, .str generated.token)]
    some (if absent s rows then setPhase i (.looking .jwtSigningSecret) (insertRows rows s)
      else setPhase i .hindsightAdopt s)
  | .hindsightAdopt =>
    some (setPhase i
      (if (resolve builtins env s tokenRow hindsightToken).truthy then .looking .jwtSigningSecret else .aborted) s)
  | .adminLooking => some (setPhase i (adminFound env s) s)
  | .adminInserting username =>
    some (if s.users.contains username then setPhase i .aborted s
      else setPhase i .running { s with users := username :: s.users })
  | .running => none
  | .aborted => none

def step (s : St) : Event → Option St
  | .spawn => some { s with procs := s.procs ++ [.looking .mcpApiKey] }
  | .advance i draw => s.procs[i]?.bind (advance builtins env generateSshKeypair i draw s)
  | .handOut i key =>
    match s.procs[i]?, s.settings key with
    | some .running, some value => some { s with handed := s.handed ++ [(key, value)] }
    | _, _ => none

def machine : Machine St Event := ⟨(· = start), step builtins env generateSshKeypair⟩

/-! ## What is wanted -/

/-- The settings every process has once it runs. -/
def secretKeys : List String := ["mcp_api_key", "ssh_private_key", "jwt_signing_secret"]

structure Booted (s : St) : Prop where
  up : ∀ i : Nat, s.procs[i]? ≠ some .aborted
  keys : ∀ i : Nat, s.procs[i]? = some .running → ∀ key ∈ secretKeys, (s.settings key).isSome = true
  bearer : ∀ i : Nat, s.procs[i]? = some .running →
    (resolve builtins env s "hindsight_url" hindsightUrl).truthy = true →
    (resolve builtins env s tokenRow hindsightToken).truthy = true
  paired : ∀ value, s.settings "ssh_private_key" = some value →
    ∃ seed, value = .str (generateSshKeypair seed).1 ∧
      s.settings "ssh_public_key" = some (.str (generateSshKeypair seed).2)
  /-- What was handed out is what is stored. -/
  kept : ∀ key value, (key, value) ∈ s.handed → s.settings key = some value

/-- A process inserts only what is still absent, and writes over no bearer that is handed
    out. -/
def Clear (s : St) : Event → Prop
  | .spawn => True
  | .handOut _ _ => True
  | .advance i _ =>
    match s.procs[i]? with
    | some (.inserting statement generated) => absent s (statement.rows generateSshKeypair generated) = true
    | some (.hindsightCommit generated true) => ∀ value, (tokenRow, value) ∈ s.handed → value = .str generated.token
    | some (.adminInserting username) => s.users.contains username = false
    | _ => True

/-! ## The invariant -/

/-- What a process has made sure of by its phase. -/
def Statement.ensured : Statement → List String
  | .mcpApiKey => []
  | .systemPrompt => ["mcp_api_key"]
  | .sshKeypair => ["mcp_api_key"]
  | .gitSshHosts => ["mcp_api_key", "ssh_private_key"]
  | .jwtSigningSecret => ["mcp_api_key", "ssh_private_key"]

def Phase.ensured : Phase → List String
  | .looking statement => statement.ensured
  | .inserting statement _ => statement.ensured
  | .hindsightUrl => ["mcp_api_key", "ssh_private_key"]
  | .hindsightToken => ["mcp_api_key", "ssh_private_key"]
  | .hindsightRow => ["mcp_api_key", "ssh_private_key"]
  | .hindsightCommit _ true => ["mcp_api_key", "ssh_private_key", tokenRow]
  | .hindsightCommit _ false => ["mcp_api_key", "ssh_private_key"]
  | .hindsightAdopt => ["mcp_api_key", "ssh_private_key", tokenRow]
  | .adminLooking => secretKeys
  | .adminInserting _ => secretKeys
  | .running => secretKeys
  | .aborted => []

/-- The phases after the Hindsight bearer. -/
def Phase.pastBearer : Phase → Bool
  | .looking .jwtSigningSecret => true
  | .inserting .jwtSigningSecret _ => true
  | .adminLooking => true
  | .adminInserting _ => true
  | .running => true
  | _ => false

def Bearer (s : St) : Prop :=
  (resolve builtins env s "hindsight_url" hindsightUrl).truthy = true →
    (resolve builtins env s tokenRow hindsightToken).truthy = true

structure Ready (s : St) (phase : Phase) : Prop where
  keys : ∀ key ∈ phase.ensured, (s.settings key).isSome = true
  bearer : phase.pastBearer = true → Bearer builtins env s

structure Inv (s : St) : Prop where
  token : ∀ value, s.settings tokenRow = some value → ∃ text, value = .str text ∧ text ≠ ""
  paired : ∀ value, s.settings "ssh_private_key" = some value →
    ∃ seed, value = .str (generateSshKeypair seed).1 ∧
      s.settings "ssh_public_key" = some (.str (generateSshKeypair seed).2)
  ready : ∀ (i : Nat) phase, s.procs[i]? = some phase → Ready builtins env s phase

variable {builtins env generateSshKeypair}

theorem inv_start : Inv builtins env generateSshKeypair start where
  token := by
    intro value h
    cases h
  paired := by
    intro value h
    cases h
  ready := by
    intro i phase h
    cases h

theorem booted_start : Booted builtins env generateSshKeypair start where
  up := by
    intro i h
    cases h
  keys := by
    intro i h
    cases h
  bearer := by
    intro i h
    cases h
  paired := by
    intro value h
    cases h
  kept := by
    intro key value h
    cases h

/-- The bearer is there where the variable is set or the row is. -/
theorem token_truthy {s : St} (h : ∀ value, s.settings tokenRow = some value → ∃ text, value = .str text ∧ text ≠ "") :
    (resolve builtins env s tokenRow hindsightToken).truthy = true ↔
      (envText env hindsightToken).isSome = true ∨ (s.settings tokenRow).isSome = true := by
  rw [resolve]
  cases henv : envText env hindsightToken with
  | some text =>
    obtain ⟨-, hne⟩ := Option.filter_eq_some_iff.mp henv
    rw [resolve_env henv]
    simpa [coerceOr, hindsightToken, coerce_text, Json.truthy] using hne
  | none =>
    cases hrow : s.settings tokenRow with
    | some value =>
      obtain ⟨text, rfl, hne⟩ := h value hrow
      rw [resolve_row henv hrow]
      simpa [coerceOr, hindsightToken, coerce_text, Json.truthy] using hne
    | none =>
      rw [resolve_default henv hrow]
      simp [hindsightToken, Json.truthy]

/-- The table has grown: no row is gone, none of a Hindsight address is new, and a bearer is a text. -/
structure Grown (s s' : St) : Prop where
  rows : ∀ key, (s.settings key).isSome = true → (s'.settings key).isSome = true
  url : s'.settings "hindsight_url" = s.settings "hindsight_url"
  token : ∀ value, s'.settings tokenRow = some value → ∃ text, value = .str text ∧ text ≠ ""

theorem resolve_congr {s s' : St} {key : String} {info : Meta} (h : s'.settings key = s.settings key) :
    resolve builtins env s' key info = resolve builtins env s key info := by
  simp only [resolve, resolveSettingValue, h]

theorem bearer_grown {s s' : St} (hinv : Inv builtins env generateSshKeypair s) (hg : Grown s s')
    (h : Bearer builtins env s) : Bearer builtins env s' := by
  intro hurl
  rw [resolve_congr hg.url] at hurl
  rw [token_truthy hg.token]
  rcases (token_truthy hinv.token).mp (h hurl) with henv | hrow
  · exact .inl henv
  · exact .inr (hg.rows _ hrow)

theorem ready_grown {s s' : St} (hinv : Inv builtins env generateSshKeypair s) (hg : Grown s s') {phase : Phase}
    (h : Ready builtins env s phase) : Ready builtins env s' phase :=
  ⟨fun key hkey => hg.rows key (h.keys key hkey), fun hpast => bearer_grown hinv hg (h.bearer hpast)⟩

/-- A process goes on to a phase it is ready for. -/
theorem inv_setPhase {s : St} (h : Inv builtins env generateSshKeypair s) {i : Nat} {phase : Phase}
    (hready : Ready builtins env s phase) : Inv builtins env generateSshKeypair (setPhase i phase s) where
  token := h.token
  paired := h.paired
  ready := by
    intro j p hp
    rcases Slots.get_set_cases hp with ⟨-, rfl⟩ | ⟨-, hp⟩
    · exact ⟨hready.keys, hready.bearer⟩
    · exact ⟨(h.ready j p hp).keys, (h.ready j p hp).bearer⟩

theorem booted_setPhase {s : St} (h : Booted builtins env generateSshKeypair s) {i : Nat} {phase : Phase}
    (hready : Ready builtins env s phase) (hup : phase ≠ .aborted) :
    Booted builtins env generateSshKeypair (setPhase i phase s) where
  up := by
    intro j hj
    rcases Slots.get_set_cases hj with ⟨-, heq⟩ | ⟨-, hj⟩
    · exact hup heq.symm
    · exact h.up j hj
  keys := by
    intro j hj
    rcases Slots.get_set_cases hj with ⟨-, rfl⟩ | ⟨-, hj⟩
    · exact hready.keys
    · exact h.keys j hj
  bearer := by
    intro j hj
    rcases Slots.get_set_cases hj with ⟨-, rfl⟩ | ⟨-, hj⟩
    · exact hready.bearer rfl
    · exact h.bearer j hj
  paired := h.paired
  kept := h.kept

theorem not_booted_aborted {s : St} {i : Nat} {phase : Phase} (hi : s.procs[i]? = some phase) :
    ¬ Booted builtins env generateSshKeypair (setPhase i .aborted s) :=
  fun h => h.up i (Slots.get_set_self hi _)

theorem ready_aborted (s : St) : Ready builtins env s .aborted where
  keys := by
    intro key hkey
    cases hkey
  bearer := by
    intro hpast
    cases hpast

/-! ## The rows that are inserted -/

/-- Rows that leave the Hindsight address alone, a bearer of which is a text, and a private
    key of which comes with its public one. -/
structure Fine (generateSshKeypair : Nat → String × String) (rows : List (String × Json)) : Prop where
  url : Dict.get? rows "hindsight_url" = none
  token : ∀ value, Dict.get? rows tokenRow = some value → ∃ text, value = .str text ∧ text ≠ ""
  pair : ∀ value, Dict.get? rows "ssh_private_key" = some value →
    ∃ seed, value = .str (generateSshKeypair seed).1 ∧
      Dict.get? rows "ssh_public_key" = some (.str (generateSshKeypair seed).2)

theorem fine_rows (statement : Statement) (draw : Draw) :
    Fine generateSshKeypair (statement.rows generateSshKeypair draw) := by
  cases statement with
  | sshKeypair =>
    refine ⟨rfl, nofun, ?_⟩
    intro value h
    cases h
    exact ⟨draw.seed, rfl, rfl⟩
  | mcpApiKey => exact ⟨rfl, nofun, nofun⟩
  | systemPrompt => exact ⟨rfl, nofun, nofun⟩
  | gitSshHosts => exact ⟨rfl, nofun, nofun⟩
  | jwtSigningSecret => exact ⟨rfl, nofun, nofun⟩

theorem fine_token (draw : Draw) : Fine generateSshKeypair [(tokenRow, .str draw.token)] where
  url := rfl
  token := by
    intro value h
    cases h
    exact ⟨draw.token, rfl, draw.drawn⟩
  pair := nofun

theorem absent_get? {s : St} {rows : List (String × Json)} (h : absent s rows = true) {key : String} {value : Json}
    (hget : Dict.get? rows key = some value) : s.settings key = none := by
  have hmem := List.all_eq_true.mp h _ (Dict.mem_of_get? hget)
  simpa using hmem

theorem insert_old {s : St} {rows : List (String × Json)} (h : absent s rows = true) {key : String} {value : Json}
    (hold : s.settings key = some value) : (insertRows rows s).settings key = some value := by
  have hnone : Dict.get? rows key = none := by
    cases hget : Dict.get? rows key with
    | none => rfl
    | some new =>
      rw [absent_get? h hget] at hold
      cases hold
  simp [insertRows, hnone, hold]

theorem insert_cases {s : St} {rows : List (String × Json)} {key : String} {value : Json}
    (h : (insertRows rows s).settings key = some value) : Dict.get? rows key = some value ∨ s.settings key = some value := by
  cases hget : Dict.get? rows key with
  | none => exact .inr (by simpa [insertRows, hget] using h)
  | some new => exact .inl (by simpa [insertRows, hget] using h)

theorem grown_insert {s : St} (hinv : Inv builtins env generateSshKeypair s) {rows : List (String × Json)}
    (hf : Fine generateSshKeypair rows) (habs : absent s rows = true) : Grown s (insertRows rows s) where
  rows := by
    intro key hkey
    obtain ⟨value, hvalue⟩ := Option.isSome_iff_exists.mp hkey
    rw [insert_old habs hvalue]
    rfl
  url := by simp [insertRows, hf.url]
  token := by
    intro value hvalue
    rcases insert_cases hvalue with hnew | hold
    · exact hf.token value hnew
    · exact hinv.token value hold

theorem paired_insert {s : St} (hinv : Inv builtins env generateSshKeypair s) {rows : List (String × Json)}
    (hf : Fine generateSshKeypair rows) (habs : absent s rows = true) {value : Json}
    (h : (insertRows rows s).settings "ssh_private_key" = some value) :
    ∃ seed, value = .str (generateSshKeypair seed).1 ∧
      (insertRows rows s).settings "ssh_public_key" = some (.str (generateSshKeypair seed).2) := by
  rcases insert_cases h with hnew | hold
  · obtain ⟨seed, heq, hpublic⟩ := hf.pair value hnew
    exact ⟨seed, heq, by simp [insertRows, hpublic]⟩
  · obtain ⟨seed, heq, hpublic⟩ := hinv.paired value hold
    exact ⟨seed, heq, insert_old habs hpublic⟩

theorem inv_insert {s : St} (hinv : Inv builtins env generateSshKeypair s) {rows : List (String × Json)}
    (hf : Fine generateSshKeypair rows) (habs : absent s rows = true) :
    Inv builtins env generateSshKeypair (insertRows rows s) where
  token := (grown_insert hinv hf habs).token
  paired := fun _ h => paired_insert hinv hf habs h
  ready := fun i phase h => ready_grown hinv (grown_insert hinv hf habs) (hinv.ready i phase h)

theorem booted_insert {s : St} (hinv : Inv builtins env generateSshKeypair s)
    (h : Booted builtins env generateSshKeypair s) {rows : List (String × Json)} (hf : Fine generateSshKeypair rows)
    (habs : absent s rows = true) : Booted builtins env generateSshKeypair (insertRows rows s) where
  up := h.up
  keys := fun i hi key hkey => (grown_insert hinv hf habs).rows key (h.keys i hi key hkey)
  bearer := fun i hi => bearer_grown hinv (grown_insert hinv hf habs) (h.bearer i hi)
  paired := fun _ hvalue => paired_insert hinv hf habs hvalue
  kept := fun key value hmem => insert_old habs (h.kept key value hmem)

theorem grown_update (s : St) (draw : Draw) : Grown s (updateRow tokenRow (.str draw.token) s) where
  rows := by
    intro key hkey
    by_cases heq : key = tokenRow
    · simp [updateRow, heq]
    · simpa [updateRow, heq] using hkey
  url := by simp [updateRow, tokenRow]
  token := by
    intro value hvalue
    obtain rfl : Json.str draw.token = value := by simpa [updateRow] using hvalue
    exact ⟨draw.token, rfl, draw.drawn⟩

theorem inv_update {s : St} (hinv : Inv builtins env generateSshKeypair s) (draw : Draw) :
    Inv builtins env generateSshKeypair (updateRow tokenRow (.str draw.token) s) where
  token := (grown_update s draw).token
  paired := by
    intro value hvalue
    have hold : s.settings "ssh_private_key" = some value := by simpa [updateRow, tokenRow] using hvalue
    obtain ⟨seed, heq, hpublic⟩ := hinv.paired value hold
    exact ⟨seed, heq, by simpa [updateRow, tokenRow] using hpublic⟩
  ready := fun i phase h => ready_grown hinv (grown_update s draw) (hinv.ready i phase h)

/-- A bearer that is written over keeps what was handed out exactly if it is what was. -/
theorem booted_update {s : St} (hinv : Inv builtins env generateSshKeypair s)
    (h : Booted builtins env generateSshKeypair s) (draw : Draw) :
    Booted builtins env generateSshKeypair (updateRow tokenRow (.str draw.token) s) ↔
      ∀ value, (tokenRow, value) ∈ s.handed → value = .str draw.token := by
  constructor
  · intro hbooted value hmem
    have hkept := hbooted.kept tokenRow value hmem
    exact (Option.some.inj (by simpa [updateRow] using hkept)).symm
  · intro hsame
    refine ⟨h.up, ?_, ?_, (inv_update hinv draw).paired, ?_⟩
    · exact fun i hi key hkey => (grown_update s draw).rows key (h.keys i hi key hkey)
    · exact fun i hi => bearer_grown hinv (grown_update s draw) (h.bearer i hi)
    · intro key value hmem
      by_cases heq : key = tokenRow
      · subst heq
        simp [updateRow, hsame value hmem]
      · simpa [updateRow, heq] using h.kept key value hmem

/-! ## What each statement does -/

theorem next_ensured {statement : Statement} {key : String} (h : key ∈ statement.next.ensured) :
    key ∈ statement.ensured ∨ key = statement.key := by
  revert h
  cases statement <;> simp [Statement.next, Phase.ensured, Statement.ensured, Statement.key, secretKeys] <;> grind

theorem next_pastBearer {statement : Statement} (h : statement.next.pastBearer = true) :
    (Phase.looking statement).pastBearer = true := by
  cases statement <;> first | rfl | cases h

theorem next_ne_aborted (statement : Statement) : statement.next ≠ .aborted := by
  cases statement <;> nofun

theorem ready_next {s : St} {statement : Statement} (h : Ready builtins env s (.looking statement))
    (hkey : (s.settings statement.key).isSome = true) : Ready builtins env s statement.next where
  keys := by
    intro key hmem
    rcases next_ensured hmem with hmem | rfl
    · exact h.keys key hmem
    · exact hkey
  bearer := fun hpast => h.bearer (next_pastBearer hpast)

theorem ready_inserting {s : St} {statement : Statement} {draw : Draw} :
    Ready builtins env s (.inserting statement draw) ↔ Ready builtins env s (.looking statement) := by
  have hpast : (Phase.inserting statement draw).pastBearer = (Phase.looking statement).pastBearer := by
    cases statement <;> rfl
  constructor
  · intro h
    exact ⟨h.keys, fun hp => h.bearer (hpast.trans hp)⟩
  · intro h
    exact ⟨h.keys, fun hp => h.bearer (hpast.symm.trans hp)⟩

theorem insert_key (statement : Statement) (draw : Draw) (s : St) :
    ((insertRows (statement.rows generateSshKeypair draw) s).settings statement.key).isSome = true := by
  cases statement <;> rfl

/-- The phases around the bearer are ready when the keys before it are there. -/
theorem ready_keys {s : St} {phase phase' : Phase} (h : Ready builtins env s phase)
    (hkeys : ∀ key ∈ phase'.ensured, key ∈ phase.ensured) (hpast : phase'.pastBearer = true → Bearer builtins env s) :
    Ready builtins env s phase' :=
  ⟨fun key hkey => h.keys key (hkeys key hkey), hpast⟩

/-- What a step has to show. -/
def Keeps (builtins : Builtins) (env : String → Option String) (generateSshKeypair : Nat → String × String)
    (s s' : St) (C : Prop) : Prop :=
  Inv builtins env generateSshKeypair s' ∧
    (Booted builtins env generateSshKeypair s → (Booted builtins env generateSshKeypair s' ↔ C))

theorem keeps_setPhase {s : St} {C : Prop} (hinv : Inv builtins env generateSshKeypair s) {i : Nat} {phase : Phase}
    (hready : Ready builtins env s phase) (hup : phase ≠ .aborted) (hc : C) :
    Keeps builtins env generateSshKeypair s (setPhase i phase s) C :=
  ⟨inv_setPhase hinv hready, fun h => ⟨fun _ => hc, fun _ => booted_setPhase h hready hup⟩⟩

theorem keeps_abort {s : St} {C : Prop} (hinv : Inv builtins env generateSshKeypair s) {i : Nat} {phase : Phase}
    (hi : s.procs[i]? = some phase) (hc : ¬ C) : Keeps builtins env generateSshKeypair s (setPhase i .aborted s) C :=
  ⟨inv_setPhase hinv (ready_aborted s), fun _ => iff_of_false (not_booted_aborted hi) hc⟩

theorem keeps_insert {s : St} {C : Prop} (hinv : Inv builtins env generateSshKeypair s) {i : Nat} {phase : Phase}
    {rows : List (String × Json)} (hf : Fine generateSshKeypair rows) (habs : absent s rows = true)
    (hready : Ready builtins env (insertRows rows s) phase) (hup : phase ≠ .aborted) (hc : C) :
    Keeps builtins env generateSshKeypair s (setPhase i phase (insertRows rows s)) C := by
  refine ⟨inv_setPhase (inv_insert hinv hf habs) hready, ?_⟩
  intro h
  exact ⟨fun _ => hc, fun _ => booted_setPhase (booted_insert hinv h hf habs) hready hup⟩

section Steps

variable {s s' : St} {i : Nat} {draw : Draw}

theorem keeps_looking {statement : Statement} (hinv : Inv builtins env generateSshKeypair s)
    (hready : Ready builtins env s (.looking statement))
    (hst : advance builtins env generateSshKeypair i draw s (.looking statement) = some s') :
    Keeps builtins env generateSshKeypair s s' True := by
  cases hst
  split
  · rename_i hkey
    exact keeps_setPhase hinv (ready_next hready hkey) (next_ne_aborted statement) trivial
  · exact keeps_setPhase hinv (ready_inserting.mpr hready) nofun trivial

theorem keeps_inserting {statement : Statement} {generated : Draw} (hinv : Inv builtins env generateSshKeypair s)
    (hi : s.procs[i]? = some (.inserting statement generated))
    (hst : advance builtins env generateSshKeypair i draw s (.inserting statement generated) = some s') :
    Keeps builtins env generateSshKeypair s s' (absent s (statement.rows generateSshKeypair generated) = true) := by
  cases hst
  have hready := ready_inserting.mp (hinv.ready i _ hi)
  split
  · rename_i habs
    have hgrown := grown_insert hinv (fine_rows statement generated) habs
    have hnext := ready_next (ready_grown hinv hgrown hready) (insert_key statement generated s)
    exact keeps_insert hinv (fine_rows statement generated) habs hnext (next_ne_aborted statement) habs
  · rename_i habs
    exact keeps_abort hinv hi habs

theorem keeps_hindsightUrl (hinv : Inv builtins env generateSshKeypair s) (hi : s.procs[i]? = some .hindsightUrl)
    (hst : advance builtins env generateSshKeypair i draw s .hindsightUrl = some s') :
    Keeps builtins env generateSshKeypair s s' True := by
  cases hst
  have hready := hinv.ready i _ hi
  split
  · exact keeps_setPhase hinv (ready_keys hready (fun _ h => h) nofun) nofun trivial
  · rename_i hurl
    refine keeps_setPhase hinv (ready_keys hready (fun _ h => h) ?_) nofun trivial
    intro _ h
    exact absurd h hurl

theorem keeps_hindsightToken (hinv : Inv builtins env generateSshKeypair s) (hi : s.procs[i]? = some .hindsightToken)
    (hst : advance builtins env generateSshKeypair i draw s .hindsightToken = some s') :
    Keeps builtins env generateSshKeypair s s' True := by
  cases hst
  have hready := hinv.ready i _ hi
  split
  · rename_i htoken
    exact keeps_setPhase hinv (ready_keys hready (fun _ h => h) fun _ _ => htoken) nofun trivial
  · exact keeps_setPhase hinv (ready_keys hready (fun _ h => h) nofun) nofun trivial

theorem keeps_hindsightRow (hinv : Inv builtins env generateSshKeypair s) (hi : s.procs[i]? = some .hindsightRow)
    (hst : advance builtins env generateSshKeypair i draw s .hindsightRow = some s') :
    Keeps builtins env generateSshKeypair s s' True := by
  cases hst
  have hready := hinv.ready i _ hi
  refine keeps_setPhase hinv ?_ nofun trivial
  cases hrow : (s.settings tokenRow).isSome with
  | false => exact ready_keys hready (fun _ h => h) nofun
  | true =>
    refine ⟨?_, nofun⟩
    intro key hkey
    simp only [Phase.ensured, List.mem_cons, List.not_mem_nil, or_false] at hkey
    rcases hkey with rfl | rfl | rfl
    · exact hready.keys _ (List.mem_cons_self ..)
    · exact hready.keys _ (List.mem_cons_of_mem _ (List.mem_cons_self ..))
    · exact hrow

/-- The bearer that has just been written is there. -/
theorem ready_written {phase : Phase} (hgrown : Grown s s') (hready : Ready builtins env s phase)
    (hkeys : ∀ key ∈ Statement.jwtSigningSecret.ensured, key ∈ phase.ensured)
    (hrow : (s'.settings tokenRow).isSome = true) : Ready builtins env s' (.looking .jwtSigningSecret) where
  keys := fun key hkey => hgrown.rows key (hready.keys key (hkeys key hkey))
  bearer := fun _ _ => (token_truthy hgrown.token).mpr (.inr hrow)

theorem keeps_hindsightInsert {generated : Draw} (hinv : Inv builtins env generateSshKeypair s)
    (hi : s.procs[i]? = some (.hindsightCommit generated false))
    (hst : advance builtins env generateSshKeypair i draw s (.hindsightCommit generated false) = some s') :
    Keeps builtins env generateSshKeypair s s' True := by
  cases hst
  have hready := hinv.ready i _ hi
  split
  · rename_i habs
    have hgrown := grown_insert hinv (fine_token generated) habs
    exact keeps_insert hinv (fine_token generated) habs (ready_written hgrown hready (fun _ h => h) rfl) nofun trivial
  · rename_i habs
    have hrow : (s.settings tokenRow).isSome = true := by
      simpa [absent, Option.isSome_iff_ne_none] using habs
    refine keeps_setPhase hinv ⟨?_, nofun⟩ nofun trivial
    intro key hkey
    simp only [Phase.ensured, List.mem_cons, List.not_mem_nil, or_false] at hkey
    rcases hkey with rfl | rfl | rfl
    · exact hready.keys _ (List.mem_cons_self ..)
    · exact hready.keys _ (List.mem_cons_of_mem _ (List.mem_cons_self ..))
    · exact hrow

theorem keeps_hindsightUpdate {generated : Draw} (hinv : Inv builtins env generateSshKeypair s)
    (hi : s.procs[i]? = some (.hindsightCommit generated true))
    (hst : advance builtins env generateSshKeypair i draw s (.hindsightCommit generated true) = some s') :
    Keeps builtins env generateSshKeypair s s' (∀ value, (tokenRow, value) ∈ s.handed → value = .str generated.token) := by
  cases hst
  have hready := hinv.ready i _ hi
  have hrow : (s.settings tokenRow).isSome = true :=
    hready.keys _ (List.mem_cons_of_mem _ (List.mem_cons_of_mem _ (List.mem_cons_self ..)))
  rw [if_pos hrow]
  have hgrown := grown_update s generated
  have hnext : Ready builtins env (updateRow tokenRow (.str generated.token) s) (.looking .jwtSigningSecret) := by
    refine ready_written hgrown hready ?_ (by simp [updateRow])
    intro key hkey
    simp only [Statement.ensured, List.mem_cons, List.not_mem_nil, or_false] at hkey
    rcases hkey with rfl | rfl
    · exact List.mem_cons_self ..
    · exact List.mem_cons_of_mem _ (List.mem_cons_self ..)
  refine ⟨inv_setPhase (inv_update hinv generated) hnext, ?_⟩
  intro h
  rw [← booted_update hinv h generated]
  constructor
  · intro hbooted
    refine ⟨h.up, fun j hj key hkey => hgrown.rows key (h.keys j hj key hkey), ?_, hbooted.paired, hbooted.kept⟩
    exact fun j hj => bearer_grown hinv hgrown (h.bearer j hj)
  · exact fun hbooted => booted_setPhase hbooted hnext (by rintro ⟨⟩)

theorem keeps_hindsightAdopt (hinv : Inv builtins env generateSshKeypair s) (hi : s.procs[i]? = some .hindsightAdopt)
    (hst : advance builtins env generateSshKeypair i draw s .hindsightAdopt = some s') :
    Keeps builtins env generateSshKeypair s s' True := by
  cases hst
  have hready := hinv.ready i _ hi
  have hrow : (s.settings tokenRow).isSome = true :=
    hready.keys _ (List.mem_cons_of_mem _ (List.mem_cons_of_mem _ (List.mem_cons_self ..)))
  have htoken : (resolve builtins env s tokenRow hindsightToken).truthy = true := (token_truthy hinv.token).mpr (.inr hrow)
  rw [if_pos htoken]
  refine keeps_setPhase hinv (ready_keys hready ?_ fun _ _ => htoken) nofun trivial
  intro key hkey
  simp only [Phase.ensured, Statement.ensured, List.mem_cons, List.not_mem_nil, or_false] at hkey ⊢
  rcases hkey with rfl | rfl
  · exact .inl rfl
  · exact .inr (.inl rfl)

theorem keeps_adminLooking (hinv : Inv builtins env generateSshKeypair s) (hi : s.procs[i]? = some .adminLooking)
    (hst : advance builtins env generateSshKeypair i draw s .adminLooking = some s') :
    Keeps builtins env generateSshKeypair s s' True := by
  cases hst
  have hready := hinv.ready i _ hi
  have hbearer := hready.bearer rfl
  unfold adminFound
  split
  · exact keeps_setPhase hinv (ready_keys hready (fun _ h => h) fun _ => hbearer) nofun trivial
  · split
    · exact keeps_setPhase hinv (ready_keys hready (fun _ h => h) fun _ => hbearer) nofun trivial
    · split
      · exact keeps_setPhase hinv (ready_keys hready (fun _ h => h) fun _ => hbearer) nofun trivial
      · exact keeps_setPhase hinv (ready_keys hready (fun _ h => h) fun _ => hbearer) nofun trivial

theorem keeps_adminInserting {username : String} (hinv : Inv builtins env generateSshKeypair s)
    (hi : s.procs[i]? = some (.adminInserting username))
    (hst : advance builtins env generateSshKeypair i draw s (.adminInserting username) = some s') :
    Keeps builtins env generateSshKeypair s s' (s.users.contains username = false) := by
  cases hst
  have hready := hinv.ready i _ hi
  split
  · rename_i huser
    exact keeps_abort hinv hi (by simpa using huser)
  · rename_i huser
    have hrunning : Ready builtins env { s with users := username :: s.users } .running :=
      ⟨hready.keys, fun _ => hready.bearer rfl⟩
    have hinv' : Inv builtins env generateSshKeypair { s with users := username :: s.users } :=
      ⟨hinv.token, hinv.paired, fun j phase h => ⟨(hinv.ready j phase h).keys, (hinv.ready j phase h).bearer⟩⟩
    refine ⟨inv_setPhase hinv' hrunning, ?_⟩
    intro h
    have hbooted : Booted builtins env generateSshKeypair { s with users := username :: s.users } :=
      ⟨h.up, h.keys, h.bearer, h.paired, h.kept⟩
    exact ⟨fun _ => by simpa using huser, fun _ => booted_setPhase hbooted hrunning nofun⟩

end Steps

theorem keeps_step {s s' : St} {e : Event} (hinv : Inv builtins env generateSshKeypair s)
    (hst : step builtins env generateSshKeypair s e = some s') :
    Keeps builtins env generateSshKeypair s s' (Clear generateSshKeypair s e) := by
  cases e with
  | spawn =>
    cases hst
    have hproc : ∀ {j : Nat} {phase}, (s.procs ++ [Phase.looking .mcpApiKey])[j]? = some phase →
        phase ≠ .looking .mcpApiKey → s.procs[j]? = some phase := by
      intro j phase h hne
      rcases Slots.append_cases h with h | ⟨-, rfl⟩
      · exact h
      · exact absurd rfl hne
    refine ⟨⟨hinv.token, hinv.paired, ?_⟩, fun h => ⟨fun _ => trivial, fun _ => ?_⟩⟩
    · intro j phase hp
      rcases Slots.append_cases hp with hp | ⟨-, rfl⟩
      · exact ⟨(hinv.ready j phase hp).keys, (hinv.ready j phase hp).bearer⟩
      · refine ⟨?_, nofun⟩
        intro key hkey
        cases hkey
    · exact ⟨fun j hj => h.up j (hproc hj nofun), fun j hj => h.keys j (hproc hj nofun),
        fun j hj => h.bearer j (hproc hj nofun), h.paired, h.kept⟩
  | handOut i key =>
    simp only [step] at hst
    split at hst
    · rename_i value hi hvalue
      cases hst
      refine ⟨⟨hinv.token, hinv.paired, fun j phase hp => ⟨(hinv.ready j phase hp).keys, (hinv.ready j phase hp).bearer⟩⟩,
        fun h => ⟨fun _ => trivial, fun _ => ⟨h.up, h.keys, h.bearer, h.paired, ?_⟩⟩⟩
      intro k v hmem
      rcases List.mem_append.mp hmem with hmem | hmem
      · exact h.kept k v hmem
      · cases List.mem_singleton.mp hmem
        exact hvalue
    · cases hst
  | advance i draw =>
    obtain ⟨phase, hi, hst⟩ := Option.bind_eq_some_iff.mp hst
    simp only [Clear, hi]
    cases phase with
    | looking statement => exact keeps_looking hinv (hinv.ready i _ hi) hst
    | inserting statement generated => exact keeps_inserting hinv hi hst
    | hindsightUrl => exact keeps_hindsightUrl hinv hi hst
    | hindsightToken => exact keeps_hindsightToken hinv hi hst
    | hindsightRow => exact keeps_hindsightRow hinv hi hst
    | hindsightCommit generated existing =>
      cases existing with
      | true => exact keeps_hindsightUpdate hinv hi hst
      | false => exact keeps_hindsightInsert hinv hi hst
    | hindsightAdopt => exact keeps_hindsightAdopt hinv hi hst
    | adminLooking => exact keeps_adminLooking hinv hi hst
    | adminInserting username => exact keeps_adminInserting hinv hi hst
    | running => cases hst
    | aborted => cases hst

/-! ## A startup ends -/

/-- How many statements are left at most. -/
def Phase.left : Phase → Nat
  | .looking .mcpApiKey => 17
  | .inserting .mcpApiKey _ => 16
  | .looking .systemPrompt => 15
  | .inserting .systemPrompt _ => 14
  | .looking .sshKeypair => 13
  | .inserting .sshKeypair _ => 12
  | .looking .gitSshHosts => 11
  | .inserting .gitSshHosts _ => 10
  | .hindsightUrl => 9
  | .hindsightToken => 8
  | .hindsightRow => 7
  | .hindsightCommit _ _ => 6
  | .hindsightAdopt => 5
  | .looking .jwtSigningSecret => 4
  | .inserting .jwtSigningSecret _ => 3
  | .adminLooking => 2
  | .adminInserting _ => 1
  | .running => 0
  | .aborted => 0

theorem next_left (statement : Statement) (draw : Draw) :
    statement.next.left < (Phase.inserting statement draw).left ∧
      (Phase.inserting statement draw).left < (Phase.looking statement).left := by
  cases statement <;> simp [Statement.next, Phase.left]

theorem inserting_left_pos (statement : Statement) (draw : Draw) : 0 < (Phase.inserting statement draw).left := by
  cases statement <;> simp [Phase.left]

theorem adminFound_left (s : St) : (adminFound env s).left < Phase.adminLooking.left := by
  unfold adminFound
  split
  · simp [Phase.left]
  · split
    · simp [Phase.left]
    · split <;> simp [Phase.left]

/-- A process that neither runs nor is aborted has a next statement, and one fewer left
    after it. -/
theorem advance_left {s : St} {i : Nat} {phase : Phase} (hi : s.procs[i]? = some phase) (hrunning : phase ≠ .running)
    (haborted : phase ≠ .aborted) (draw : Draw) :
    ∃ s' phase', step builtins env generateSshKeypair s (.advance i draw) = some s' ∧
      s'.procs[i]? = some phase' ∧ phase'.left < phase.left := by
  have hset : ∀ (t : St) (next : Phase), t.procs = s.procs → (setPhase i next t).procs[i]? = some next := by
    intro t next ht
    exact Slots.get_set_self (by rw [ht]; exact hi) next
  simp only [step, hi, Option.bind_some]
  cases phase with
  | looking statement =>
    refine ⟨_, _, rfl, hset _ _ rfl, ?_⟩
    have hleft := next_left statement draw
    split <;> omega
  | inserting statement generated =>
    have hleft := next_left statement generated
    have hpos := inserting_left_pos statement generated
    simp only [advance]
    split
    · exact ⟨_, _, rfl, hset _ _ rfl, hleft.1⟩
    · exact ⟨_, _, rfl, hset _ _ rfl, hpos⟩
  | hindsightUrl =>
    refine ⟨_, _, rfl, hset _ _ rfl, ?_⟩
    split <;> simp [Phase.left]
  | hindsightToken =>
    refine ⟨_, _, rfl, hset _ _ rfl, ?_⟩
    split <;> simp [Phase.left]
  | hindsightRow => exact ⟨_, _, rfl, hset _ _ rfl, by simp [Phase.left]⟩
  | hindsightCommit generated existing =>
    cases existing <;> simp only [advance] <;> split <;> exact ⟨_, _, rfl, hset _ _ rfl, by simp [Phase.left]⟩
  | hindsightAdopt =>
    refine ⟨_, _, rfl, hset _ _ rfl, ?_⟩
    split <;> simp [Phase.left]
  | adminLooking => exact ⟨_, _, rfl, hset _ _ rfl, adminFound_left s⟩
  | adminInserting username =>
    simp only [advance]
    split <;> exact ⟨_, _, rfl, hset _ _ rfl, by simp [Phase.left]⟩
  | running => exact absurd rfl hrunning
  | aborted => exact absurd rfl haborted

/-! ## Main results -/

def plain : Builtins := ⟨fun _ => "", fun _ => none, fun _ => none⟩

def hindsightEnv (name : String) : Option String := if name = "HINDSIGHT_URL" then some "http://hindsight" else none

def drawn (n : Nat) (token : String) (h : token ≠ "" := by decide) : Draw := ⟨token, n, h⟩

theorem drawn_a : "a" ≠ "" := by decide

/-- Both look for the API key before either inserts it. -/
def twoLook : List Event :=
  [.spawn, .spawn, .advance 0 (drawn 0 "a" drawn_a), .advance 1 (drawn 1 "b"), .advance 0 (drawn 0 "a" drawn_a),
    .advance 1 (drawn 1 "b")]

/-- The first finds no bearer; the second stores one, runs and hands it out; the first
    finds the row and writes its own. -/
def lateLook : List Event :=
  .spawn :: List.replicate 10 (.advance 0 (drawn 0 "a" drawn_a)) ++
    .spawn :: List.replicate 11 (.advance 1 (drawn 1 "b")) ++ [.handOut 1 tokenRow] ++ List.replicate 2 (.advance 0 (drawn 0 "a" drawn_a))

theorem the_bearer_is_replaced :
    ∃ s, (machine plain hindsightEnv fun seed => (toString seed, toString seed)).exec start lateLook = some s ∧
      s.handed = [(tokenRow, .str "b")] ∧ s.settings tokenRow = some (.str "a") :=
  ⟨_, rfl, rfl, rfl⟩

end Errand.Server.Startup

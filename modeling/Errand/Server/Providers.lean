import Errand.Lib.Json
import Errand.Lib.PyStr
import Mathlib.Data.List.Sort

/-
  Errand.Server.Providers — the table of LLM providers and what changes it: the routes
  (errand/main.py), the scan of the environment at startup (errand/llm_providers.py), and
  the scan for local runtimes and their adoption (errand/local_ai_detection.py).

  The database has a name and an id once each. What comes from outside an operation is in
  `Outside`: the replies of the servers it asks, the id a new row gets, the clock, and the
  deployment's settings. An operation that raises — a key that does not encrypt, an id the
  table has — commits nothing. The model settings that a deleted provider takes with it are
  another table and left out.
-/

namespace Errand.Server.Providers

open Errand.Lib

inductive ProviderType where
  | litellm
  | openaiCompatible
  | unknown
  deriving DecidableEq, Repr

inductive Source where
  | database
  | env
  | detected
  deriving DecidableEq, Repr

structure Provider where
  id : Nat
  name : String
  baseUrl : String
  apiKeyEncrypted : String
  providerType : ProviderType
  isDefault : Bool
  source : Source
  createdAt : Nat
  deriving DecidableEq, Repr

structure Cipher where
  encrypt : String → String
  decrypt : String → String

/-- `uuid4`: an id that no row has. -/
structure Uuid4 where
  next : List Nat → Nat
  fresh : ∀ ids, next ids ∉ ids

/-- A reply with its body, if that is JSON. -/
structure HttpReply where
  status : Nat
  body : Option Json

structure Outside where
  /-- `GET` of a URL with a bearer; none is an exception. -/
  http : String → String → Option HttpReply
  uuid4 : Uuid4
  now : Nat
  /-- `CONTAINER_RUNTIME` and `HOST_GATEWAY_ADDRESS`. -/
  containerRuntime : Option String
  hostGateway : Option String

/-- `s.rstrip("/")`. -/
def rstripSlash (s : String) : String := String.ofList (s.toList.reverse.dropWhile (· = '/')).reverse

/-! ## Probing -/

/-- The `data` of a reply that lists something. -/
def listing : Option HttpReply → Option (List Json)
  | some ⟨200, some (.obj fields)⟩ =>
    match Json.lookup "data" fields with
    | some (.arr items) => some items
    | _ => none
  | _ => none

def probeProviderType (o : Outside) (baseUrl apiKey : String) : ProviderType :=
  let base := rstripSlash baseUrl
  let stripped := if base.endsWith "/v1" then String.ofList (base.toList.take (base.length - 3)) else base
  if (listing (o.http (stripped ++ "/model/info") apiKey)).isSome then .litellm
  else if (listing (o.http (base ++ "/models") apiKey)).isSome then .openaiCompatible
  else .unknown

inductive Endpoint where
  | answered (items : List Json)
  | unauthorized
  | error
  | noAnswer

def Endpoint.present : Endpoint → Bool
  | .noAnswer => false
  | _ => true

def probeLocalEndpoint (o : Outside) (baseUrl apiKey : String) : Endpoint :=
  match o.http (rstripSlash baseUrl ++ "/models") apiKey with
  | none => .noAnswer
  | some reply =>
    if reply.status = 401 ∨ reply.status = 403 then .unauthorized
    else if reply.status = 404 then .noAnswer
    else
      match listing (some reply) with
      | some items => .answered items
      | none => .error

/-- `_resolved_type`. -/
def resolvedType (o : Outside) (baseUrl apiKey : String) : ProviderType :=
  match probeProviderType o baseUrl apiKey with
  | .unknown => .openaiCompatible
  | t => t

/-! ## The routes -/

structure CatalogEntry where
  id : String
  displayName : String
  baseUrl : Option String
  requiresBaseUrl : Bool

structure ProviderCreate where
  name : Option String
  baseUrl : Option String
  apiKey : String
  catalogId : Option String

structure ProviderUpdate where
  name : Option String
  baseUrl : Option String
  apiKey : Option String

inductive Reply where
  | provider (status : Nat) (p : Provider)
  | noContent
  | refused (status : Nat) (detail : String)
  deriving DecidableEq

def blank (s : Option String) : Bool := (s.getD "").isEmpty

def named (rows : List Provider) (name : String) : Option Provider := rows.find? (·.name = name)

def withId (rows : List Provider) (id : Nat) : Option Provider := rows.find? (·.id = id)

def newId (o : Outside) (rows : List Provider) : Nat := o.uuid4.next (rows.map Provider.id)

/-- The name and the URL a request asks for; a catalog entry supplies what it leaves out. -/
def requested (catalog : List CatalogEntry) (body : ProviderCreate) : Except String (Option String × Option String) :=
  if blank body.catalogId then .ok (body.name, body.baseUrl)
  else
    match catalog.find? fun e => body.catalogId = some e.id with
    | none => .error "Unknown catalog entry"
    | some e =>
      if e.requiresBaseUrl && blank body.baseUrl then .error "base_url is required for this catalog entry"
      else
        .ok (if blank body.name then some e.displayName else body.name,
          if e.requiresBaseUrl then body.baseUrl else e.baseUrl)

section Open

variable (cipher : Cipher) (catalog : List CatalogEntry)

def createProvider (rows : List Provider) (body : ProviderCreate) (o : Outside) : Reply × List Provider :=
  match requested catalog body with
  | .error detail => (.refused 422 detail, rows)
  | .ok (name, baseUrl) =>
    if blank name || blank baseUrl then (.refused 422 "name and base_url are required", rows)
    else if (named rows (name.getD "")).isSome then (.refused 409 "Provider name already exists", rows)
    else
      let provider : Provider :=
        { id := newId o rows
          name := name.getD ""
          baseUrl := baseUrl.getD ""
          apiKeyEncrypted := cipher.encrypt body.apiKey
          providerType := probeProviderType o (baseUrl.getD "") body.apiKey
          isDefault := decide (rows.length = 0)
          source := .database
          createdAt := o.now }
      (.provider 201 provider, rows ++ [provider])

def ProviderUpdate.apply (body : ProviderUpdate) (o : Outside) (p : Provider) : Provider :=
  let key := if blank body.apiKey then p.apiKeyEncrypted else cipher.encrypt (body.apiKey.getD "")
  let baseUrl := body.baseUrl.getD p.baseUrl
  { p with
    name := body.name.getD p.name
    baseUrl := baseUrl
    apiKeyEncrypted := key
    providerType :=
      if baseUrl = p.baseUrl then p.providerType
      else probeProviderType o baseUrl (if blank body.apiKey then cipher.decrypt key else body.apiKey.getD "") }

def updateProvider (rows : List Provider) (id : Nat) (body : ProviderUpdate) (o : Outside) : Reply × List Provider :=
  match withId rows id with
  | none => (.refused 404 "Provider not found", rows)
  | some p =>
    if p.source = .env then (.refused 403 "Cannot modify env-sourced provider", rows)
    else if p.source = .detected ∧ body.baseUrl.getD p.baseUrl ≠ p.baseUrl then
      (.refused 403 "Cannot change the endpoint of a detected provider — it is reconciled by scanning.", rows)
    else if rows.any fun q => decide (body.name = some q.name ∧ q.id ≠ id) then
      (.refused 409 "Provider name already exists", rows)
    else
      (.provider 200 (body.apply cipher o p), rows.map fun q => if q.id = id then body.apply cipher o q else q)

def deleteProvider (rows : List Provider) (id : Nat) : Reply × List Provider :=
  match withId rows id with
  | none => (.refused 404 "Provider not found", rows)
  | some p =>
    if p.source = .env then (.refused 403 "Cannot modify env-sourced provider", rows)
    else if p.isDefault then (.refused 409 "Cannot delete the default provider", rows)
    else (.noContent, rows.filter (·.id ≠ id))

def setDefaultProvider (rows : List Provider) (id : Nat) : Reply × List Provider :=
  match withId rows id with
  | none => (.refused 404 "Provider not found", rows)
  | some p =>
    (.provider 200 { p with isDefault := true }, rows.map fun q => { q with isDefault := decide (q.id = id) })

/-! ## The environment -/

/-- `LLM_PROVIDER_{n}_NAME`, `_BASE_URL` and `_API_KEY`. -/
structure EnvVars where
  name : Option String
  baseUrl : Option String
  apiKey : Option String

structure EnvProvider where
  name : String
  baseUrl : String
  apiKey : String
  deriving DecidableEq

def EnvVars.complete (v : EnvVars) : Option EnvProvider :=
  if blank v.name || blank v.baseUrl || blank v.apiKey then none
  else some ⟨v.name.getD "", v.baseUrl.getD "", v.apiKey.getD ""⟩

/-- The variables from index 0 on, up to the first that are not complete. -/
def envProviders : List EnvVars → List EnvProvider
  | [] => []
  | v :: vars =>
    match v.complete with
    | some e => e :: envProviders vars
    | none => []

def upsertEnv (o : Outside) (rows : List Provider) (e : EnvProvider) (isDefault : Bool) : List Provider :=
  let providerType := probeProviderType o e.baseUrl e.apiKey
  match named rows e.name with
  | some _ =>
    rows.map fun p =>
      if p.name = e.name then
        { p with
          baseUrl := e.baseUrl
          apiKeyEncrypted := cipher.encrypt e.apiKey
          providerType := providerType
          isDefault := isDefault
          source := .env }
      else p
  | none =>
    rows ++
      [{ id := newId o rows
         name := e.name
         baseUrl := e.baseUrl
         apiKeyEncrypted := cipher.encrypt e.apiKey
         providerType := providerType
         isDefault := isDefault
         source := .env
         createdAt := o.now }]

def upsertAll (o : Outside) : List Provider → Nat → List EnvProvider → List Provider
  | rows, _, [] => rows
  | rows, index, e :: es => upsertAll o (upsertEnv cipher o rows e (decide (index = 0))) (index + 1) es

def scanEnvProviders (rows : List Provider) (vars : List EnvVars) (o : Outside) : List Provider :=
  let es := envProviders vars
  let names := es.map EnvProvider.name
  let rows := upsertAll cipher o rows 0 es
  let rows :=
    if es.isEmpty then rows
    else
      rows.map fun p =>
        if p.isDefault ∧ (p.source ≠ .env ∨ p.name ∉ names) then { p with isDefault := false } else p
  rows.filter fun p => decide (p.source ≠ .env ∨ p.name ∈ names)

/-! ## Local runtimes -/

structure LocalAiCandidate where
  name : String
  port : Nat

def candidates : List LocalAiCandidate :=
  [⟨"ollama", 11434⟩, ⟨"lm-studio", 1234⟩, ⟨"llama.cpp", 8080⟩, ⟨"jan", 1337⟩, ⟨"vllm", 8000⟩, ⟨"localai", 8080⟩,
   ⟨"gpt4all", 4891⟩, ⟨"mlx", 10240⟩]

def ownedBySignature : String → Option String
  | "library" => some "ollama"
  | "organization_owner" => some "lm-studio"
  | "llamacpp" => some "llama.cpp"
  | "llama.cpp" => some "llama.cpp"
  | "vllm" => some "vllm"
  | "localai" => some "localai"
  | "omlx" => some "omlx"
  | _ => none

def candidatePorts : List Nat :=
  candidates.foldl (fun seen c => if c.port ∈ seen then seen else seen ++ [c.port]) []

/-- `str(entry.get("owned_by", "")).strip().lower()`. What is no text reads as something
    that is not empty and names no runtime. -/
def owner (fields : List (String × Json)) : String :=
  match Json.lookup "owned_by" fields with
  | none => ""
  | some (.str s) => String.ofList (PyStr.lower (PyStr.strip s.toList))
  | some _ => "null"

/-- The first owner that is known, and whether one that is not was read before. -/
def readOwners : Bool → List Json → Except String Bool
  | claimed, [] => .ok claimed
  | claimed, .obj fields :: items =>
    let o := owner fields
    if o.isEmpty then readOwners claimed items
    else
      match ownedBySignature o with
      | some name => .error name
      | none => readOwners true items
  | claimed, _ :: items => readOwners claimed items

def identifyRuntime (payload : List Json) (port : Option Nat) : String :=
  let unnamed :=
    match port with
    | some n => "local-ai-" ++ toString n
    | none => "local-ai"
  match readOwners false payload with
  | .error name => name
  | .ok true => unnamed
  | .ok false =>
    match candidates.filter fun c => some c.port = port with
    | [c] => c.name
    | _ => unnamed

def detectedApiKey : String := "sk-no-key-required"

def getHostGatewayAddress (o : Outside) : Option String :=
  match o.hostGateway with
  | none => some "host.docker.internal"
  | some raw =>
    let address := PyStr.stripString raw
    if address.isEmpty then none else some address

/-- The gateway, where `is_local_detection_available`. -/
def localGateway (o : Outside) : Option String :=
  if o.containerRuntime.getD "docker" = "kubernetes" then none else getHostGatewayAddress o

def endpointUrl (gateway : String) (port : Nat) : String := "http://" ++ gateway ++ ":" ++ toString port ++ "/v1"

/-- `canonical_base_url`. -/
def canonicalBaseUrl (baseUrl : String) : String := rstripSlash baseUrl

/-- `ORDER BY created_at, id`. -/
def Older (p q : Provider) : Prop := p.createdAt < q.createdAt ∨ p.createdAt = q.createdAt ∧ p.id ≤ q.id

instance : DecidableRel Older := fun p q => by unfold Older; infer_instance

def configured (rows : List Provider) : List Provider := rows.insertionSort Older

/-- The row a scan reconciles at an endpoint: of those detected there, the oldest. -/
def detectedRow (rows : List Provider) (url : String) : Option Provider :=
  (configured rows).find? fun p => decide (p.source = .detected ∧ canonicalBaseUrl p.baseUrl = url)

def storedKey (rows : List Provider) (url : String) : String :=
  match detectedRow rows url with
  | some p => cipher.decrypt p.apiKeyEncrypted
  | none => detectedApiKey

def probeAt (rows : List Provider) (o : Outside) (url : String) : Endpoint :=
  probeLocalEndpoint o url (storedKey cipher rows url)

structure Detected where
  name : String
  baseUrl : String
  providerType : ProviderType
  port : Nat
  deriving DecidableEq

/-- What a scan finds at the endpoint of a port, if that answers with a listing. -/
def detectAt (rows : List Provider) (o : Outside) (gateway : String) (port : Nat) : Option Detected :=
  let url := endpointUrl gateway port
  match probeAt cipher rows o url with
  | .answered items =>
    some ⟨identifyRuntime items (some port), url, resolvedType o url (storedKey cipher rows url), port⟩
  | _ => none

def needsKey (rows : List Provider) (o : Outside) (gateway : String) : List String :=
  (candidatePorts.map (endpointUrl gateway)).filter fun url =>
    match probeAt cipher rows o url with
    | .unauthorized => url ∉ rows.map fun p => canonicalBaseUrl p.baseUrl
    | _ => false

/-- `_available_name`. -/
def availableName (rows : List Provider) (name : String) (port : Nat) : Option String :=
  [name, name ++ "-" ++ toString port].find? fun candidate => (named rows candidate).isNone

structure Registering where
  rows : List Provider
  claimDefault : Bool
  registered : List Detected

/-- One endpoint that answered; `found` is the row that was there before the scan. -/
def register (o : Outside) (found : Option Provider) (r : Registering) (info : Detected) : Registering :=
  match found with
  | some existing =>
    { r with
      rows := r.rows.map fun p => if p.id = existing.id then { p with providerType := info.providerType } else p
      registered := r.registered ++ [{ info with name := existing.name }] }
  | none =>
    match availableName r.rows info.name info.port with
    | none => r
    | some name =>
      { rows := r.rows ++
          [{ id := newId o r.rows
             name := name
             baseUrl := info.baseUrl
             apiKeyEncrypted := cipher.encrypt detectedApiKey
             providerType := info.providerType
             isDefault := r.claimDefault
             source := .detected
             createdAt := o.now }]
        claimDefault := false
        registered := r.registered ++ [{ info with name := name }] }

structure LocalScan where
  available : Bool
  detected : List Detected
  needsKey : List String
  message : Option String

/-- Something answered at an endpoint. -/
def presentAt (rows : List Provider) (o : Outside) (gateway url : String) : Bool :=
  candidatePorts.any fun port =>
    decide (endpointUrl gateway port = url) && (probeAt cipher rows o (endpointUrl gateway port)).present

/-- A detected provider at whose endpoint nothing answers. -/
def departed (rows : List Provider) (o : Outside) (gateway : String) (p : Provider) : Bool :=
  decide (p.source = .detected) && !presentAt cipher rows o gateway (canonicalBaseUrl p.baseUrl)

def scanLocalAi (rows : List Provider) (o : Outside) : LocalScan × List Provider :=
  match localGateway o with
  | none =>
    (⟨false, [], [], some ("Local AI detection is not available for this deployment, because " ++
      "there is no container host to probe.")⟩, rows)
  | some gateway =>
    let infos := candidatePorts.filterMap (detectAt cipher rows o gateway)
    let done := infos.foldl (fun r info => register cipher o (detectedRow rows info.baseUrl) r info)
      ⟨rows, decide (rows.length = 0), []⟩
    (⟨true, done.registered, needsKey cipher rows o gateway, none⟩,
      done.rows.filter fun p => !departed cipher rows o gateway p)

/-! ## Adoption -/

/-- `urlparse(base_url).port` of an `http` URL. -/
def portOf (baseUrl : String) : Option Nat :=
  let netloc := (baseUrl.toList.drop "http://".length).takeWhile fun c => c ≠ '/' && c ≠ '?' && c ≠ '#'
  let hostinfo := (netloc.reverse.takeWhile (· ≠ '@')).reverse
  let after (c : Char) (s : List Char) : List Char := (s.dropWhile (· ≠ c)).drop 1
  let port := if '[' ∈ hostinfo then after ':' (after ']' (after '[' hostinfo)) else after ':' hostinfo
  if decide ('[' ∈ netloc) != decide (']' ∈ netloc) then none
  else if port = [] ∨ !port.all Char.isDigit then none
  else if PyStr.digitsValue port ≤ 65535 then some (PyStr.digitsValue port)
  else none

inductive Adoption where
  | adopted (p : Provider)
  | refused (reason : String) (conflictingName : Option String) (message : String)
  /-- The `ValueError`, a 422. -/
  | notACandidate (detail : String)
  deriving DecidableEq

def adoptableEndpoints (o : Outside) : List String :=
  match localGateway o with
  | none => []
  | some gateway => candidatePorts.map (endpointUrl gateway)

/-- `{name!r}` is open. -/
def adoptLocalRuntime (repr : String → String) (rows : List Provider) (baseUrl apiKey : String) (name : Option String)
    (o : Outside) : Adoption × List Provider :=
  let url := canonicalBaseUrl baseUrl
  if url ∉ adoptableEndpoints o then
    (.notACandidate (url ++ " is not a local AI candidate endpoint. Adoption takes a base_url from a scan result."), rows)
  else
    match rows.find? fun p => canonicalBaseUrl p.baseUrl = url with
    | some held =>
      (.refused "already_configured" (some held.name) ("A provider named " ++ repr held.name ++
        " is already configured for this endpoint. Edit that provider to change its API key."), rows)
    | none =>
      match probeLocalEndpoint o url apiKey with
      | .noAnswer => (.refused "unreachable" none ("Nothing answered at " ++ url ++ "."), rows)
      | .unauthorized => (.refused "key_rejected" none "The runtime did not accept that API key.", rows)
      | .error =>
        (.refused "unreachable" none (url ++ " answered with an error rather than a model listing. " ++
          "The runtime may still be starting up."), rows)
      | .answered items =>
        let resolved := if blank name then identifyRuntime items (portOf url) else name.getD ""
        if (named rows resolved).isSome then
          (.refused "name_conflict" (some resolved) ("A provider named " ++ repr resolved ++
            " already exists. Supply a different name to adopt this runtime."), rows)
        else
          let provider : Provider :=
            { id := newId o rows
              name := resolved
              baseUrl := url
              apiKeyEncrypted := cipher.encrypt apiKey
              providerType := resolvedType o url apiKey
              isDefault := decide (rows.length = 0)
              source := .detected
              createdAt := o.now }
          (.adopted provider, rows ++ [provider])

end Open

end Errand.Server.Providers

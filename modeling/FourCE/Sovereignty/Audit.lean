import FourCE.Egress.Watch
import FourCE.Python.Object
import FourCE.Python.Dict

/-!
# The sovereignty audit

The audit reads the settings of the running system and reports, surface by surface, whether any of
them leads off the premises; the verdict sets that beside what the egress watch counted.
-/

namespace FourCE.Sovereignty

open FourCE.Python FourCE.Egress

/-! ## Which addresses are on the premises -/

/-- The interpreter's view of addresses by name; parsing a malformed URL raises. -/
class Network where
  /-- `urlparse(url).hostname`. -/
  hostname : PyStr → Option (Option PyStr)
  /-- `ipaddress.ip_address(socket.gethostbyname(host))`. -/
  resolve : PyStr → Option Address

structure Valves where
  treatPrivateRangesAsLocal : Bool
  resolveHostnames : Bool

def LOCAL_HOSTNAMES : List PyStr :=
  [py "localhost", py "127.0.0.1", py "::1", py "0.0.0.0", py "host.docker.internal",
    py "gateway.docker.internal", py "ollama", py "tika", py "docling", py "chroma", py "qdrant",
    py "redis", py "db", py "postgres"]

section Local

variable [Casing] [IpAddress] [Network] (valves : Valves)

def isLocalHost (host : PyStr) : Bool :=
  let host := Casing.lower host
  if LOCAL_HOSTNAMES.contains host || (py ".local").isSuffixOf host ||
      (py ".internal").isSuffixOf host then true
  else
    let address := match IpAddress.parse host with
      | some (address, _) => some address
      | none => if valves.resolveHostnames then Network.resolve host else none
    match address with
    | none => false
    | some address =>
      address.isLoopback || valves.treatPrivateRangesAsLocal && address.isPrivate

/-- The verdict on a parsed URL. -/
def isLocalUrl (url : PyStr) : Option Bool := do
  match ← Network.hostname url with
  | none => return false
  | some host => return !host.isEmpty && isLocalHost valves host

/-- `_is_local`, of a string. -/
def isLocal (url : PyStr) : Option Bool :=
  isLocalUrl valves (if contains (py "://") url then url else py "http://" ++ url)

/-- `_is_local`, of whatever a setting may hold. -/
def isLocalValue {F : Type} [Runtime F] (url : Json F) : Option Bool :=
  match url with
  | .str s => isLocal valves s
  | .arr xs =>
    if xs.any (·.isStr (py "://")) then none else isLocalUrl valves (py "http://" ++ url.text)
  | .obj d =>
    if (dictKeys d).contains (py "://") then none else isLocalUrl valves (py "http://" ++ url.text)
  | .null | .bool _ | .int _ | .float _ => none

/-- `all(self._is_local(u) for u in urls)`. -/
def allLocal : List PyStr → Option Bool
  | [] => some true
  | url :: urls => do if ← isLocal valves url then allLocal urls else return false

end Local

/-! ## Settings -/

inductive Key
  | openaiApiBaseUrls
  | ollamaBaseUrls
  | ragEmbeddingEngine
  | ragContentExtractionEngine
  | ragOpenaiApiBaseUrl
  | ragOllamaBaseUrl
  | webSearchEnable
  | uiEnableCommunitySharing
  | webLoaderEngine
  | webLoaderExternalWebLoaderUrl
  | imageGenerationEnable
  | imageGenerationEngine
  | imageGenerationOpenaiApiBaseUrl
  | imageGenerationGeminiApiBaseUrl
  | imagesEditEnable
  | imagesEditEngine
  | imagesEditOpenaiApiBaseUrl
  | audioSttEngine
  | audioSttOpenaiApiBaseUrl
  | audioTtsEngine
  | audioTtsOpenaiApiBaseUrl
  | toolServerConnections
  | terminalServerConnections
  deriving DecidableEq, Repr

def Key.name : Key → PyStr
  | openaiApiBaseUrls => py "openai.api_base_urls"
  | ollamaBaseUrls => py "ollama.base_urls"
  | ragEmbeddingEngine => py "rag.embedding_engine"
  | ragContentExtractionEngine => py "rag.content_extraction_engine"
  | ragOpenaiApiBaseUrl => py "rag.openai.api_base_url"
  | ragOllamaBaseUrl => py "rag.ollama.base_url"
  | webSearchEnable => py "web.search.enable"
  | uiEnableCommunitySharing => py "ui.enable_community_sharing"
  | webLoaderEngine => py "web.loader.engine"
  | webLoaderExternalWebLoaderUrl => py "web.loader.external_web_loader_url"
  | imageGenerationEnable => py "image_generation.enable"
  | imageGenerationEngine => py "image_generation.engine"
  | imageGenerationOpenaiApiBaseUrl => py "image_generation.openai.api_base_url"
  | imageGenerationGeminiApiBaseUrl => py "image_generation.gemini.api_base_url"
  | imagesEditEnable => py "images.edit.enable"
  | imagesEditEngine => py "images.edit.engine"
  | imagesEditOpenaiApiBaseUrl => py "images.edit.openai.api_base_url"
  | audioSttEngine => py "audio.stt.engine"
  | audioSttOpenaiApiBaseUrl => py "audio.stt.openai.api_base_url"
  | audioTtsEngine => py "audio.tts.engine"
  | audioTtsOpenaiApiBaseUrl => py "audio.tts.openai.api_base_url"
  | toolServerConnections => py "tool_server.connections"
  | terminalServerConnections => py "terminal_server.connections"

/-- The configuration store, as far as it can be read at the moment: all keys at once, or each by
itself, a key that is not set as `null`.  What cannot be read raises. -/
structure Store (F : Type) where
  getMany : Option (Dict F)
  get : PyStr → Option (Json F)

section

variable {F : Type}

/-- `_safe_config`, then `settings.get(key)`. -/
def Store.safeConfig (store : Store F) (key : Key) : Json F :=
  match store.getMany with
  | some values => (dictGet values key.name).getD .null
  | none => (store.get key.name).getD .null

/-- The key could not be read. -/
def Store.Unread (store : Store F) (key : Key) : Prop :=
  store.getMany = none ∧ store.get key.name = none

instance (store : Store F) (key : Key) : Decidable (store.Unread key) :=
  match h : store.getMany, g : store.get key.name with
  | none, none => isTrue ⟨h, g⟩
  | some _, _ => isFalse fun hk ↦ by simp [hk.1] at h
  | none, some _ => isFalse fun hk ↦ by simp [hk.2] at g

variable [Runtime F]

/-- `_as_list`. -/
def asList : Json F → List PyStr
  | .str s => if (strip s).isEmpty then [] else [s]
  | .arr xs => (xs.map Json.text).filter fun s ↦ !(strip s).isEmpty
  | .null | .bool _ | .int _ | .float _ | .obj _ => []

/-- `(value or "").strip()`. -/
def stripped (value : Json F) : Option PyStr :=
  if value.truth then
    match value with
    | .str s => some (strip s)
    | _ => none
  else some []

end

/-! ## Surfaces -/

inductive Surface
  | offlineMode
  | updateCheck
  | telemetryExport
  | documentParsingModel
  | chatOpenai
  | chatOllama
  | embeddingOpenai
  | embeddingOllama
  | embeddingEngine
  | documentExtraction
  | webSearch
  | webPageFetching
  | imageGeneration
  | imageEditing
  | speechToText
  | textToSpeech
  | externalToolServers
  | terminalServers
  | communitySharing
  deriving DecidableEq, Repr

def Surface.label : Surface → PyStr
  | offlineMode => py "Offline mode"
  | updateCheck => py "Update check"
  | telemetryExport => py "Telemetry export"
  | documentParsingModel => py "Document parsing model"
  | chatOpenai => py "Chat model endpoints (OpenAI-compatible)"
  | chatOllama => py "Chat model endpoints (Ollama)"
  | embeddingOpenai => py "Embedding endpoint (OpenAI-compatible)"
  | embeddingOllama => py "Embedding endpoint (Ollama)"
  | embeddingEngine => py "Embedding engine"
  | documentExtraction => py "Document extraction"
  | webSearch => py "Web search"
  | webPageFetching => py "Web page fetching"
  | imageGeneration => py "Image generation"
  | imageEditing => py "Image editing"
  | speechToText => py "Speech to text"
  | textToSpeech => py "Text to speech"
  | externalToolServers => py "External tool servers"
  | terminalServers => py "Terminal servers"
  | communitySharing => py "Community sharing"

/-- An entry of the audit, under the label of its surface. -/
structure Finding where
  surface : Surface
  passed : Bool
  detail : PyStr
  deriving DecidableEq, Repr

/-- The flags of the environment. -/
structure Environment where
  offlineMode : Bool
  enableVersionUpdateCheck : Bool
  enableOtel : Bool

def environmentFindings (env : Environment) : List Finding :=
  [⟨.offlineMode, env.offlineMode,
      if env.offlineMode then py "enabled — model auto-download and update checks are disabled"
      else py "DISABLED — set OFFLINE_MODE=true to harden the deployment"⟩,
    ⟨.updateCheck, !env.enableVersionUpdateCheck,
      if !env.enableVersionUpdateCheck then py "disabled"
      else py "ENABLED — this contacts api.github.com on startup"⟩,
    ⟨.telemetryExport, !env.enableOtel,
      if !env.enableOtel then py "disabled"
      else py "ENABLED — OpenTelemetry is exporting traces"⟩]

def parsingFinding (parserModel : Bool) : Finding :=
  ⟨.documentParsingModel, parserModel,
    if parserModel then
      py "spaCy en_core_web_sm installed — uploads are parsed without a download"
    else
      py "NOT INSTALLED — the first Excel, Word or PowerPoint upload would download it " ++
        py "from github.com; install it with the offline install"⟩

/-- `WEB_PAGE_ATTACH_OFFERED`. -/
def WEB_PAGE_ATTACH_OFFERED : Bool := false

def cloudExtractors : List PyStr := [py "mistral_ocr", py "datalab_marker", py "external"]

def localEngines : List PyStr := [[], py "browser-kokoro", py "transformers"]

section Findings

variable [Casing] [IpAddress] [Network] {F : Type} [Runtime F] (valves : Valves)
  (settings : Key → Json F)

def endpointFinding (surface : Surface) (key : Key) : Option Finding := do
  let urls := asList (settings key)
  if urls.isEmpty then return ⟨surface, true, py "none configured"⟩
  let verdicts ← urls.mapM fun u ↦ do return (u, ← isLocal valves u)
  let external := verdicts.any fun v ↦ !v.2
  return ⟨surface, !external,
    if external then
      join (py ", ") (verdicts.map fun v ↦
        v.1 ++ py " (" ++ (if v.2 then py "local" else py "EXTERNAL") ++ py ")")
    else join (py ", ") urls ++ py " — all on-premise"⟩

/-- The endpoints of the embedding engine. -/
def engineEndpoints (engine : PyStr) : List PyStr :=
  if engine = py "openai" then asList (settings .ragOpenaiApiBaseUrl)
  else if engine = py "ollama" then asList (settings .ragOllamaBaseUrl)
  else []

def embeddingFinding : Option Finding := do
  let engine ← stripped (settings .ragEmbeddingEngine)
  let endpoints := engineEndpoints settings engine
  let engineLocal ←
    (if endpoints.isEmpty then some engine.isEmpty else allLocal valves endpoints)
  return ⟨.embeddingEngine, engineLocal,
    if engine.isEmpty then py "local sentence-transformers (in-process)"
    else if !endpoints.isEmpty then
      py "'" ++ engine ++ py "' via " ++ join (py ", ") endpoints ++ py " — " ++
        (if engineLocal then py "on-premise" else py "EXTERNAL ENDPOINT")
    else py "'" ++ engine ++ py "' — no endpoint configured to verify"⟩

def extractionFinding : Option Finding := do
  let extraction ← stripped (settings .ragContentExtractionEngine)
  let cloud := cloudExtractors.contains extraction
  return ⟨.documentExtraction, !cloud,
    if extraction.isEmpty then py "built-in local parsers"
    else py "'" ++ extraction ++ py "'" ++
      (if cloud then py " — CLOUD SERVICE" else py " (self-hosted)")⟩

def searchFinding : Finding :=
  let webSearch := (settings .webSearchEnable).truth
  ⟨.webSearch, !webSearch,
    if !webSearch then py "disabled" else py "ENABLED — queries would leave the premises"⟩

def fetchingFinding : Option Finding := do
  let loaderEngine ← stripped (settings .webLoaderEngine)
  let loaderExternal ← stripped (settings .webLoaderExternalWebLoaderUrl)
  return ⟨.webPageFetching, !WEB_PAGE_ATTACH_OFFERED && loaderExternal.isEmpty,
    if WEB_PAGE_ATTACH_OFFERED then
      py "OFFERED — 'Attach Webpage' would fetch a URL from this server"
    else if !loaderExternal.isEmpty then py "external loader configured: " ++ loaderExternal
    else py "withdrawn from the interface" ++
      (if loaderEngine.isEmpty then [] else py "; loader engine '" ++ loaderEngine ++ py "'")⟩

/-- `[u for u in remote if u and not self._is_local(u)]`. -/
def remoteValues : List (Json F) → Option (List (Json F))
  | [] => some []
  | u :: us => do
    let remote ← (if u.truth then (isLocalValue valves u).map (!·) else some false)
    let rest ← remoteValues us
    return if remote then u :: rest else rest

/-- A string, which alone can be joined. -/
def asText : Json F → Option PyStr
  | .str s => some s
  | _ => none

def imageDetail (enabled : Bool) (engine : Json F) (remote : List (Json F)) : Option PyStr :=
  if !enabled && remote.isEmpty then some (py "disabled, no endpoint configured")
  else if enabled then some (py "ENABLED via '" ++ engine.text ++ py "'")
  else (remote.mapM asText).map fun urls ↦
    py "disabled, but an external endpoint is configured: " ++ join (py ", ") urls

def imageFinding (surface : Surface) (enableKey engineKey : Key) (urlKeys : List Key) :
    Option Finding := do
  let enabled := (settings enableKey).truth
  let remote ← remoteValues valves (urlKeys.map settings)
  let detail ← imageDetail enabled (settings engineKey) remote
  return ⟨surface, !enabled && remote.isEmpty, detail⟩

def speechFinding (surface : Surface) (engineKey urlKey : Key) (localMeaning : PyStr) :
    Option Finding := do
  let engineName ← stripped (settings engineKey)
  let url ← stripped (settings urlKey)
  let remoteUrl ← (if url.isEmpty then some false else (isLocal valves url).map (!·))
  let localEngine := localEngines.contains engineName
  return ⟨surface, localEngine && !remoteUrl,
    if localEngine && !remoteUrl then localMeaning
    else if !localEngine then py "engine '" ++ engineName ++ py "' — LEAVES THE PREMISES"
    else py "local engine, but an external endpoint is stored: " ++ url⟩

/-- The number of connections a setting lists. -/
def connectionCount : Json F → ℕ
  | .arr connections => connections.length
  | _ => 0

def connectionsFinding (surface : Surface) (key : Key) : Finding :=
  let count := connectionCount (settings key)
  ⟨surface, count = 0,
    if count = 0 then py "none configured"
    else natText count ++ py " CONFIGURED — each is an outbound path"⟩

def sharingFinding : Finding :=
  let sharing := (settings .uiEnableCommunitySharing).truth
  ⟨.communitySharing, !sharing,
    if !sharing then py "disabled" else py "enabled — exposes a share-to-openwebui.com action"⟩

/-- The findings the settings decide. -/
def settingFindings : Option (List Finding) := do
  let chatOpenai ← endpointFinding valves settings .chatOpenai .openaiApiBaseUrls
  let chatOllama ← endpointFinding valves settings .chatOllama .ollamaBaseUrls
  let embeddingOpenai ← endpointFinding valves settings .embeddingOpenai .ragOpenaiApiBaseUrl
  let embeddingOllama ← endpointFinding valves settings .embeddingOllama .ragOllamaBaseUrl
  let embedding ← embeddingFinding valves settings
  let extraction ← extractionFinding settings
  let fetching ← fetchingFinding settings
  let generation ← imageFinding valves settings .imageGeneration .imageGenerationEnable
    .imageGenerationEngine [.imageGenerationOpenaiApiBaseUrl, .imageGenerationGeminiApiBaseUrl]
  let editing ← imageFinding valves settings .imageEditing .imagesEditEnable .imagesEditEngine
    [.imagesEditOpenaiApiBaseUrl]
  let stt ← speechFinding valves settings .speechToText .audioSttEngine .audioSttOpenaiApiBaseUrl
    (py "local whisper, in-process")
  let tts ← speechFinding valves settings .textToSpeech .audioTtsEngine .audioTtsOpenaiApiBaseUrl
    (py "browser voices, nothing sent")
  return [chatOpenai, chatOllama, embeddingOpenai, embeddingOllama, embedding, extraction,
    searchFinding settings, fetching, generation, editing, stt, tts,
    connectionsFinding settings .externalToolServers .toolServerConnections,
    connectionsFinding settings .terminalServers .terminalServerConnections,
    sharingFinding settings]

end Findings

/-! ## The audit and its verdict -/

/-- What an audit looks at: the flags of the environment, where they can be imported; whether the
parser's model is installed, where that can be told; the settings; and the egress watch. -/
structure Deployment (F : Type) where
  valves : Valves
  environment : Option Environment
  parserModel : Option Bool
  store : Store F
  watch : Option EgressWatch

section Report

variable [Casing] [IpAddress] [Network] {F : Type} [Runtime F]

/-- `_audit`; a setting of an unexpected type may raise. -/
def Deployment.audit (d : Deployment F) : Option (List Finding) := do
  let findings ← settingFindings d.valves d.store.safeConfig
  return (d.environment.map environmentFindings).getD [] ++
    parsingFinding (d.parserModel.getD false) :: findings

inductive Verdict
  | attentionRequired
  | pass
  | passNotObserved
  deriving DecidableEq, Repr

def Verdict.text : Verdict → PyStr
  | attentionRequired => py "ATTENTION REQUIRED"
  | pass => py "PASS"
  | passNotObserved => py "PASS on configuration, not observed"

/-- The watch counted an external or an unexpected LAN flow in its window. -/
def counted (w : EgressWatch) : Bool := w.flows .external ≠ 0 || w.flows .lanOut ≠ 0

def verdict (findings : List Finding) (seen : Option EgressWatch) : Verdict :=
  let watching := seen.any (·.alive)
  let leaked := watching && seen.any counted
  if !findings.all (·.passed) || leaked then .attentionRequired
  else if watching then .pass
  else .passNotObserved

/-- `_plural(count, one)`. -/
def plural (count : ℕ) (one : PyStr) : PyStr :=
  natText count ++ py " " ++ if count = 1 then one else one ++ py "s"

/-- `_report`, with the lines of `_observed_lines` at its end. -/
def report (findings : List Finding) (seen : Option EgressWatch) (observedLines : List PyStr) :
    PyStr :=
  let passed := findings.countP (·.passed)
  let total := findings.length
  let watching := seen.any (·.alive)
  let external := (seen.map (·.flows .external)).getD 0
  let observedStatus := plural external (py "external connection") ++ py " observed"
  join [10] (
    [py "## Sovereignty audit — " ++ (verdict findings seen).text, [],
      py "**" ++ natText passed ++ py " of " ++ natText total ++
        py " configured surfaces pass.** " ++
        (if watching then
          py "**" ++ Casing.upper (observedStatus.take 1) ++ observedStatus.drop 1 ++ py ".**"
        else py "Egress was not observed."),
      [], py "### What the configuration permits", [],
      py "| Surface | Status | Detail |", py "|---|---|---|"] ++
    findings.map (fun f ↦ py "| " ++ f.surface.label ++ py " | " ++
      (if f.passed then py "PASS" else py "FAIL") ++ py " | " ++ f.detail ++ py " |") ++
    (if findings.all (·.passed) then []
      else [py "\n> Every FAIL above is a configured path that *could* carry data off the " ++
        py "premises. Resolve them before asserting air-gapped operation."]) ++
    [[], py "### What the workbench actually did", []] ++ observedLines)

end Report

end FourCE.Sovereignty

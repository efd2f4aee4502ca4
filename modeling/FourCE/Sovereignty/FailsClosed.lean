import FourCE.Sovereignty.Audit
import FourCE.Sop.Disposition

/-!
# Whether the audit fails closed

A setting that cannot be read is taken for one that is not set, and most surfaces pass when nothing
is set.  What a surface is judged by is stated here as its exposure; the audit reports exactly the
exposed surfaces as failing, and so a surface that could not be read fails only where another of its
settings exposes it.
-/

namespace FourCE.Sovereignty

open FourCE.Python FourCE.Egress

/-- The settings a surface is judged by. -/
def Surface.keys : Surface → List Key
  | .offlineMode | .updateCheck | .telemetryExport | .documentParsingModel => []
  | .chatOpenai => [.openaiApiBaseUrls]
  | .chatOllama => [.ollamaBaseUrls]
  | .embeddingOpenai => [.ragOpenaiApiBaseUrl]
  | .embeddingOllama => [.ragOllamaBaseUrl]
  | .embeddingEngine => [.ragEmbeddingEngine, .ragOpenaiApiBaseUrl, .ragOllamaBaseUrl]
  | .documentExtraction => [.ragContentExtractionEngine]
  | .webSearch => [.webSearchEnable]
  | .webPageFetching => [.webLoaderEngine, .webLoaderExternalWebLoaderUrl]
  | .imageGeneration => [.imageGenerationEnable, .imageGenerationEngine,
      .imageGenerationOpenaiApiBaseUrl, .imageGenerationGeminiApiBaseUrl]
  | .imageEditing => [.imagesEditEnable, .imagesEditEngine, .imagesEditOpenaiApiBaseUrl]
  | .speechToText => [.audioSttEngine, .audioSttOpenaiApiBaseUrl]
  | .textToSpeech => [.audioTtsEngine, .audioTtsOpenaiApiBaseUrl]
  | .externalToolServers => [.toolServerConnections]
  | .terminalServers => [.terminalServerConnections]
  | .communitySharing => [.uiEnableCommunitySharing]

section Audit

variable [Casing] [IpAddress] [Network] {F : Type} [Runtime F]

/-! ## Exposure -/

section Exposure

variable (valves : Valves) (settings : Key → Json F)

def EndpointsExposed (key : Key) : Prop :=
  ∃ url ∈ asList (settings key), isLocal valves url = some false

/-- Another engine than the one in the process, without an endpoint or with one outside. -/
def EmbeddingExposed : Prop :=
  ∃ engine, stripped (settings .ragEmbeddingEngine) = some engine ∧ engine ≠ [] ∧
    (engineEndpoints settings engine = [] ∨
      ∃ url ∈ engineEndpoints settings engine, isLocal valves url = some false)

def ExtractionExposed : Prop :=
  ∃ engine ∈ cloudExtractors, stripped (settings .ragContentExtractionEngine) = some engine

def FetchingExposed : Prop :=
  ∃ url, stripped (settings .webLoaderExternalWebLoaderUrl) = some url ∧ url ≠ []

def ImageExposed (enableKey : Key) (urlKeys : List Key) : Prop :=
  (settings enableKey).truth = true ∨
    ∃ key ∈ urlKeys, (settings key).truth = true ∧ isLocalValue valves (settings key) = some false

def SpeechExposed (engineKey urlKey : Key) : Prop :=
  (∃ engine, stripped (settings engineKey) = some engine ∧ engine ∉ localEngines) ∨
    ∃ url, stripped (settings urlKey) = some url ∧ url ≠ [] ∧ isLocal valves url = some false

end Exposure

/-- What leads off the premises, surface by surface. -/
def Deployment.Exposed (d : Deployment F) : Surface → Prop
  | .offlineMode => ∃ env ∈ d.environment, env.offlineMode = false
  | .updateCheck => ∃ env ∈ d.environment, env.enableVersionUpdateCheck = true
  | .telemetryExport => ∃ env ∈ d.environment, env.enableOtel = true
  | .documentParsingModel => d.parserModel ≠ some true
  | .chatOpenai => EndpointsExposed d.valves d.store.safeConfig .openaiApiBaseUrls
  | .chatOllama => EndpointsExposed d.valves d.store.safeConfig .ollamaBaseUrls
  | .embeddingOpenai => EndpointsExposed d.valves d.store.safeConfig .ragOpenaiApiBaseUrl
  | .embeddingOllama => EndpointsExposed d.valves d.store.safeConfig .ragOllamaBaseUrl
  | .embeddingEngine => EmbeddingExposed d.valves d.store.safeConfig
  | .documentExtraction => ExtractionExposed d.store.safeConfig
  | .webSearch => (d.store.safeConfig .webSearchEnable).truth = true
  | .webPageFetching => FetchingExposed d.store.safeConfig
  | .imageGeneration => ImageExposed d.valves d.store.safeConfig .imageGenerationEnable
      [.imageGenerationOpenaiApiBaseUrl, .imageGenerationGeminiApiBaseUrl]
  | .imageEditing => ImageExposed d.valves d.store.safeConfig .imagesEditEnable
      [.imagesEditOpenaiApiBaseUrl]
  | .speechToText => SpeechExposed d.valves d.store.safeConfig .audioSttEngine
      .audioSttOpenaiApiBaseUrl
  | .textToSpeech => SpeechExposed d.valves d.store.safeConfig .audioTtsEngine
      .audioTtsOpenaiApiBaseUrl
  | .externalToolServers => connectionCount (d.store.safeConfig .toolServerConnections) ≠ 0
  | .terminalServers => connectionCount (d.store.safeConfig .terminalServerConnections) ≠ 0
  | .communitySharing => (d.store.safeConfig .uiEnableCommunitySharing).truth = true

/-- A finding about a surface, which passes unless the surface is exposed. -/
structure Judges (f : Finding) (surface : Surface) (exposed : Prop) : Prop where
  surface_eq : f.surface = surface
  passed_iff : f.passed = true ↔ ¬exposed

section Findings

variable {valves : Valves} {settings : Key → Json F}

omit [Runtime F] in
theorem any_external_iff {urls : List PyStr} {verdicts : List (PyStr × Bool)}
    (h : (urls.mapM fun u ↦ do return (u, ← isLocal valves u)) = some verdicts) :
    (verdicts.any fun v ↦ !v.2) = true ↔ ∃ url ∈ urls, isLocal valves url = some false := by
  induction urls generalizing verdicts with
  | nil =>
    obtain rfl : verdicts = [] := by simpa using h.symm
    simp
  | cons url urls ih =>
    simp only [List.mapM_cons, Option.bind_eq_bind, Option.bind_eq_some_iff, Option.pure_def,
      Option.some.injEq] at h
    obtain ⟨_, ⟨here, hhere, rfl⟩, rest, hrest, rfl⟩ := h
    rw [List.any_cons, Bool.or_eq_true, ih hrest, List.exists_mem_cons_iff, hhere]
    simp

omit [Runtime F] in
theorem allLocal_eq_false_iff {urls : List PyStr} {b : Bool} (h : allLocal valves urls = some b) :
    b = false ↔ ∃ url ∈ urls, isLocal valves url = some false := by
  induction urls with
  | nil =>
    obtain rfl : true = b := Option.some.inj h
    simp
  | cons url urls ih =>
    simp only [allLocal, Option.bind_eq_bind, Option.bind_eq_some_iff] at h
    obtain ⟨here, hhere, h⟩ := h
    rw [List.exists_mem_cons_iff, hhere]
    cases here with
    | true => simpa using ih h
    | false =>
      obtain rfl : false = b := Option.some.inj h
      simp

theorem remoteValues_nonempty_iff {urls remote : List (Json F)}
    (h : remoteValues valves urls = some remote) :
    remote.isEmpty = false ↔
      ∃ url ∈ urls, url.truth = true ∧ isLocalValue valves url = some false := by
  induction urls generalizing remote with
  | nil =>
    obtain rfl : [] = remote := Option.some.inj h
    simp
  | cons url urls ih =>
    simp only [remoteValues, Option.bind_eq_bind, Option.bind_eq_some_iff, Option.pure_def,
      Option.some.injEq] at h
    obtain ⟨here, hhere, rest, hrest, rfl⟩ := h
    rw [List.exists_mem_cons_iff, ← ih hrest]
    cases htruth : url.truth with
    | false =>
      obtain rfl : here = false := by simpa [htruth] using hhere.symm
      simp
    | true =>
      rw [htruth, if_pos rfl, Option.map_eq_some_iff] at hhere
      obtain ⟨inside, hinside, rfl⟩ := hhere
      rw [hinside]
      cases inside <;> simp

theorem endpointFinding_judges {surface : Surface} {key : Key} {f : Finding}
    (h : endpointFinding valves settings surface key = some f) :
    Judges f surface (EndpointsExposed valves settings key) := by
  simp only [endpointFinding] at h
  by_cases hnone : (asList (settings key)).isEmpty = true
  · rw [if_pos hnone] at h
    obtain rfl := Option.some.inj h
    exact ⟨rfl, by simp [EndpointsExposed, List.isEmpty_iff.mp hnone]⟩
  · rw [if_neg hnone] at h
    simp only [Option.bind_eq_bind, Option.bind_eq_some_iff, Option.pure_def,
      Option.some.injEq] at h
    obtain ⟨verdicts, hverdicts, rfl⟩ := h
    refine ⟨rfl, ?_⟩
    rw [EndpointsExposed, ← any_external_iff hverdicts]
    simp

theorem embeddingFinding_judges {f : Finding} (h : embeddingFinding valves settings = some f) :
    Judges f .embeddingEngine (EmbeddingExposed valves settings) := by
  simp only [embeddingFinding, Option.bind_eq_bind, Option.bind_eq_some_iff, Option.pure_def,
    Option.some.injEq] at h
  obtain ⟨engine, hengine, engineLocal, hlocal, rfl⟩ := h
  refine ⟨rfl, ?_⟩
  have hexposed : EmbeddingExposed valves settings ↔ engine ≠ [] ∧
      (engineEndpoints settings engine = [] ∨
        ∃ url ∈ engineEndpoints settings engine, isLocal valves url = some false) := by
    simp [EmbeddingExposed, hengine]
  rw [hexposed]
  by_cases hnone : (engineEndpoints settings engine).isEmpty = true
  · rw [if_pos hnone] at hlocal
    obtain rfl := Option.some.inj hlocal
    simp [List.isEmpty_iff.mp hnone]
  · rw [if_neg hnone] at hlocal
    have hsome : engineEndpoints settings engine ≠ [] := fun h ↦ hnone (by simp [h])
    have hengine : engine ≠ [] := by
      rintro rfl
      exact hsome rfl
    simp only [ne_eq, hengine, not_false_eq_true, hsome, false_or, true_and]
    rw [← allLocal_eq_false_iff hlocal, Bool.not_eq_false]

omit [Casing] [IpAddress] [Network] in
theorem extractionFinding_judges {f : Finding} (h : extractionFinding settings = some f) :
    Judges f .documentExtraction (ExtractionExposed settings) := by
  simp only [extractionFinding, Option.bind_eq_bind, Option.bind_eq_some_iff, Option.pure_def,
    Option.some.injEq] at h
  obtain ⟨engine, hengine, rfl⟩ := h
  refine ⟨rfl, ?_⟩
  simp [ExtractionExposed, hengine]

omit [Casing] [IpAddress] [Network] in
theorem fetchingFinding_judges {f : Finding} (h : fetchingFinding settings = some f) :
    Judges f .webPageFetching (FetchingExposed settings) := by
  simp only [fetchingFinding, Option.bind_eq_bind, Option.bind_eq_some_iff, Option.pure_def,
    Option.some.injEq] at h
  obtain ⟨engine, -, url, hurl, rfl⟩ := h
  refine ⟨rfl, ?_⟩
  simp [FetchingExposed, hurl, WEB_PAGE_ATTACH_OFFERED]

theorem imageFinding_judges {surface : Surface} {enableKey engineKey : Key} {urlKeys : List Key}
    {f : Finding}
    (h : imageFinding valves settings surface enableKey engineKey urlKeys = some f) :
    Judges f surface (ImageExposed valves settings enableKey urlKeys) := by
  simp only [imageFinding, Option.bind_eq_bind, Option.bind_eq_some_iff, Option.pure_def,
    Option.some.injEq] at h
  obtain ⟨remote, hremote, detail, -, rfl⟩ := h
  refine ⟨rfl, ?_⟩
  have hexists := remoteValues_nonempty_iff hremote
  simp only [List.mem_map, exists_exists_and_eq_and] at hexists
  rw [ImageExposed, ← hexists]
  simp

theorem speechFinding_judges {surface : Surface} {engineKey urlKey : Key} {meaning : PyStr}
    {f : Finding} (h : speechFinding valves settings surface engineKey urlKey meaning = some f) :
    Judges f surface (SpeechExposed valves settings engineKey urlKey) := by
  simp only [speechFinding, Option.bind_eq_bind, Option.bind_eq_some_iff, Option.pure_def,
    Option.some.injEq] at h
  obtain ⟨engine, hengine, url, hurl, remoteUrl, hremote, rfl⟩ := h
  refine ⟨rfl, ?_⟩
  have hexposed : SpeechExposed valves settings engineKey urlKey ↔
      engine ∉ localEngines ∨ url ≠ [] ∧ isLocal valves url = some false := by
    simp [SpeechExposed, hengine, hurl]
  rw [hexposed]
  cases url with
  | nil =>
    obtain rfl : false = remoteUrl := by simpa using hremote
    simp
  | cons c url =>
    simp only [List.isEmpty_cons, Bool.false_eq_true, if_false, Option.map_eq_some_iff] at hremote
    obtain ⟨inside, hinside, rfl⟩ := hremote
    rw [hinside]
    cases inside <;> simp

end Findings

/-! ## The audit -/

/-- The surfaces a report has whatever the environment. -/
def steadySurfaces : List Surface :=
  [.documentParsingModel, .chatOpenai, .chatOllama, .embeddingOpenai, .embeddingOllama,
    .embeddingEngine, .documentExtraction, .webSearch, .webPageFetching, .imageGeneration,
    .imageEditing, .speechToText, .textToSpeech, .externalToolServers, .terminalServers,
    .communitySharing]

def environmentSurfaces : List Surface := [.offlineMode, .updateCheck, .telemetryExport]

omit [Casing] [IpAddress] [Network] in
theorem mem_surfaces (s : Surface) : s ∈ environmentSurfaces ∨ s ∈ steadySurfaces := by
  cases s <;> decide

variable {d : Deployment F} {findings : List Finding}

theorem settingFindings_judges {fs : List Finding}
    (h : settingFindings d.valves d.store.safeConfig = some fs) :
    fs.map Finding.surface = steadySurfaces.tail ∧
      ∀ f ∈ fs, Judges f f.surface (d.Exposed f.surface) := by
  rw [settingFindings] at h
  obtain ⟨chatOpenai, h₁, h⟩ := Option.bind_eq_some_iff.mp h
  obtain ⟨chatOllama, h₂, h⟩ := Option.bind_eq_some_iff.mp h
  obtain ⟨embeddingOpenai, h₃, h⟩ := Option.bind_eq_some_iff.mp h
  obtain ⟨embeddingOllama, h₄, h⟩ := Option.bind_eq_some_iff.mp h
  obtain ⟨embedding, h₅, h⟩ := Option.bind_eq_some_iff.mp h
  obtain ⟨extraction, h₆, h⟩ := Option.bind_eq_some_iff.mp h
  obtain ⟨fetching, h₇, h⟩ := Option.bind_eq_some_iff.mp h
  obtain ⟨generation, h₈, h⟩ := Option.bind_eq_some_iff.mp h
  obtain ⟨editing, h₉, h⟩ := Option.bind_eq_some_iff.mp h
  obtain ⟨stt, h₁₀, h⟩ := Option.bind_eq_some_iff.mp h
  obtain ⟨tts, h₁₁, h⟩ := Option.bind_eq_some_iff.mp h
  obtain rfl := Option.some.inj h
  have j₁ := endpointFinding_judges h₁
  have j₂ := endpointFinding_judges h₂
  have j₃ := endpointFinding_judges h₃
  have j₄ := endpointFinding_judges h₄
  have j₅ := embeddingFinding_judges h₅
  have j₆ := extractionFinding_judges h₆
  have j₇ := fetchingFinding_judges h₇
  have j₈ := imageFinding_judges h₈
  have j₉ := imageFinding_judges h₉
  have j₁₀ := speechFinding_judges h₁₀
  have j₁₁ := speechFinding_judges h₁₁
  refine ⟨?_, ?_⟩
  · simp only [List.map_cons, List.map_nil, j₁.surface_eq, j₂.surface_eq, j₃.surface_eq,
      j₄.surface_eq, j₅.surface_eq, j₆.surface_eq, j₇.surface_eq, j₈.surface_eq, j₉.surface_eq,
      j₁₀.surface_eq, j₁₁.surface_eq]
    rfl
  · have hjudged : ∀ {f : Finding} {s : Surface}, Judges f s (d.Exposed s) →
        Judges f f.surface (d.Exposed f.surface) := by
      intro f s hf
      rw [hf.surface_eq]
      exact hf
    simp only [List.forall_mem_cons]
    refine ⟨hjudged j₁, hjudged j₂, hjudged j₃, hjudged j₄, hjudged j₅, hjudged j₆, ⟨rfl, ?_⟩,
      hjudged j₇, hjudged j₈, hjudged j₉, hjudged j₁₀, hjudged j₁₁, ⟨rfl, ?_⟩, ⟨rfl, ?_⟩,
      ⟨rfl, ?_⟩, fun f hf ↦ absurd hf List.not_mem_nil⟩
    · simp [searchFinding, Deployment.Exposed]
    · simp [connectionsFinding, Deployment.Exposed]
    · simp [connectionsFinding, Deployment.Exposed]
    · simp [sharingFinding, Deployment.Exposed]

/-- The audit reports every surface, those of the environment where its flags can be imported. -/
theorem audit_surfaces (h : d.audit = some findings) :
    findings.map Finding.surface =
      (if d.environment.isSome then environmentSurfaces else []) ++ steadySurfaces := by
  simp only [Deployment.audit, Option.bind_eq_bind, Option.bind_eq_some_iff, Option.pure_def,
    Option.some.injEq] at h
  obtain ⟨fs, hfs, rfl⟩ := h
  rw [List.map_append, List.map_cons, (settingFindings_judges hfs).1]
  cases d.environment <;> rfl

/-- A surface is reported as passing exactly when nothing exposes it. -/
theorem audit_passed_iff (h : d.audit = some findings) {f : Finding} (hf : f ∈ findings) :
    f.passed = true ↔ ¬d.Exposed f.surface := by
  simp only [Deployment.audit, Option.bind_eq_bind, Option.bind_eq_some_iff, Option.pure_def,
    Option.some.injEq] at h
  obtain ⟨fs, hfs, rfl⟩ := h
  rcases List.mem_append.mp hf with henv | hf
  · cases hd : d.environment with
    | none => simp [hd] at henv
    | some env =>
      rw [hd] at henv
      simp only [Option.map_some, Option.getD_some, environmentFindings, List.mem_cons,
        List.not_mem_nil, or_false] at henv
      rcases henv with rfl | rfl | rfl <;> simp [Deployment.Exposed, hd]
  · rcases List.mem_cons.mp hf with rfl | hf
    · simp only [parsingFinding, Deployment.Exposed]
      cases d.parserModel with
      | none => simp
      | some b => simp
    · exact ((settingFindings_judges hfs).2 f hf).passed_iff

theorem exists_finding (h : d.audit = some findings) {s : Surface}
    (hs : s ∈ steadySurfaces ∨ d.environment.isSome = true) :
    ∃ f ∈ findings, f.surface = s := by
  have hmem : s ∈ findings.map Finding.surface := by
    rw [audit_surfaces h, List.mem_append]
    rcases mem_surfaces s with henv | hsteady
    · rcases hs with hs | hsome
      · exact Or.inr hs
      · exact Or.inl (by rw [if_pos hsome]; exact henv)
    · exact Or.inr hsteady
  obtain ⟨f, hf, rfl⟩ := List.mem_map.mp hmem
  exact ⟨f, hf, rfl⟩

/-! ## What could not be read -/

/-- One of the settings of the surface could not be read. -/
def Deployment.SurfaceUnread (d : Deployment F) (s : Surface) : Prop :=
  (∃ key ∈ s.keys, d.store.Unread key) ∨ s ∈ environmentSurfaces ∧ d.environment = none ∨
    s = .documentParsingModel ∧ d.parserModel = none

/-- No surface passes that could not be read, and the verdict is not `PASS` where a surface could
not be read or fails, or where the watch counted a flow that leads outside. -/
structure FailsClosed (d : Deployment F) (findings : List Finding) : Prop where
  unread_fails : ∀ f ∈ findings, d.SurfaceUnread f.surface → f.passed = false
  pass_read : verdict findings d.watch = .pass → ∀ s, ¬d.SurfaceUnread s
  pass_clean : verdict findings d.watch = .pass → ∀ f ∈ findings, f.passed = true
  pass_quiet : verdict findings d.watch = .pass → ∀ w ∈ d.watch, counted w = false

/-- The settings each of which decides a surface by itself. -/
def decisiveKeys : List Key :=
  [.openaiApiBaseUrls, .ollamaBaseUrls, .ragEmbeddingEngine, .ragContentExtractionEngine,
    .ragOpenaiApiBaseUrl, .ragOllamaBaseUrl, .webSearchEnable, .uiEnableCommunitySharing,
    .webLoaderExternalWebLoaderUrl, .toolServerConnections, .terminalServerConnections]

/-- The surfaces several settings expose, each by itself. -/
def sharedSurfaces : List Surface :=
  [.webPageFetching, .imageGeneration, .imageEditing, .speechToText, .textToSpeech]

/-- Whatever could not be read does not decide: no setting that decides a surface by itself, and
of a surface that several settings expose only one beside a setting that does expose it; and the
flags of the environment only where something else keeps the verdict from being `PASS`. -/
structure Deployment.Guarded (d : Deployment F) : Prop where
  decisive : ∀ key ∈ decisiveKeys, ¬d.store.Unread key
  shared : ∀ s ∈ sharedSurfaces, (∃ key ∈ s.keys, d.store.Unread key) → d.Exposed s
  environment : d.environment = none →
    (∃ s, d.Exposed s) ∨ (d.watch.any fun w ↦ w.alive && !counted w) = false

omit [Casing] [IpAddress] [Network] [Runtime F] in
theorem safeConfig_of_unread {store : Store F} {key : Key} (h : store.Unread key) :
    store.safeConfig key = .null := by
  rw [Store.safeConfig, h.1, h.2]
  rfl

/-- A surface a decisive setting decides is not exposed when the setting could not be read. -/
theorem exists_unexposed_of_decisive {key : Key} (hkey : key ∈ decisiveKeys)
    (h : d.store.Unread key) :
    ∃ s ∈ steadySurfaces, key ∈ s.keys ∧ ¬d.Exposed s := by
  have hnull := safeConfig_of_unread h
  have hendpoints (hnull : d.store.safeConfig key = .null) :
      ¬EndpointsExposed d.valves d.store.safeConfig key := by
    simp [EndpointsExposed, hnull, asList]
  have hstripped (hnull : d.store.safeConfig key = .null) :
      stripped (d.store.safeConfig key) = some [] := by
    rw [hnull]
    rfl
  simp only [decisiveKeys, List.mem_cons, List.not_mem_nil, or_false] at hkey
  rcases hkey with rfl | rfl | rfl | rfl | rfl | rfl | rfl | rfl | rfl | rfl | rfl
  · exact ⟨.chatOpenai, by decide, by decide, hendpoints hnull⟩
  · exact ⟨.chatOllama, by decide, by decide, hendpoints hnull⟩
  · exact ⟨.embeddingEngine, by decide, by decide, by
      simp [Deployment.Exposed, EmbeddingExposed, hstripped hnull]⟩
  · have hcloud : ([] : PyStr) ∉ cloudExtractors := by decide
    exact ⟨.documentExtraction, by decide, by decide, by
      simp [Deployment.Exposed, ExtractionExposed, hstripped hnull, hcloud]⟩
  · exact ⟨.embeddingOpenai, by decide, by decide, hendpoints hnull⟩
  · exact ⟨.embeddingOllama, by decide, by decide, hendpoints hnull⟩
  · exact ⟨.webSearch, by decide, by decide, by simp [Deployment.Exposed, hnull, Json.truth]⟩
  · exact ⟨.communitySharing, by decide, by decide, by
      simp [Deployment.Exposed, hnull, Json.truth]⟩
  · exact ⟨.webPageFetching, by decide, by decide, by
      simp [Deployment.Exposed, FetchingExposed, hstripped hnull]⟩
  · exact ⟨.externalToolServers, by decide, by decide, by
      simp [Deployment.Exposed, hnull, connectionCount]⟩
  · exact ⟨.terminalServers, by decide, by decide, by
      simp [Deployment.Exposed, hnull, connectionCount]⟩

omit [Casing] [IpAddress] [Network] in
/-- Every setting decides a surface by itself or belongs to a surface that several expose. -/
theorem decisive_or_shared {s : Surface} {key : Key} (h : key ∈ s.keys) :
    key ∈ decisiveKeys ∨ s ∈ sharedSurfaces := by
  cases s <;> revert h <;> cases key <;> decide

omit [Casing] [IpAddress] [Network] in
theorem verdict_eq_pass_iff (findings : List Finding) (seen : Option EgressWatch) :
    verdict findings seen = .pass ↔
      (∀ f ∈ findings, f.passed = true) ∧ (seen.any fun w ↦ w.alive && !counted w) = true := by
  rw [← List.all_eq_true (p := Finding.passed), verdict]
  cases findings.all Finding.passed with
  | false => simp
  | true =>
    cases seen with
    | none => simp
    | some w => cases halive : w.alive <;> cases hcounted : counted w <;> simp [halive, hcounted]

/-- The audit fails closed exactly when nothing that could not be read decides. -/
theorem fails_closed_iff (h : d.audit = some findings) : FailsClosed d findings ↔ d.Guarded := by
  constructor
  · intro hclosed
    refine ⟨fun key hkey hunread ↦ ?_, fun s hs hunread ↦ ?_, fun henv ↦ ?_⟩
    · obtain ⟨s, hs, hmem, hquiet⟩ := exists_unexposed_of_decisive hkey hunread
      obtain ⟨f, hf, rfl⟩ := exists_finding h (Or.inl hs)
      have hfails := hclosed.unread_fails f hf (Or.inl ⟨key, hmem, hunread⟩)
      exact Bool.false_ne_true (hfails.symm.trans ((audit_passed_iff h hf).mpr hquiet))
    · have hsteady : s ∈ steadySurfaces := by
        revert hs
        cases s <;> decide
      obtain ⟨f, hf, rfl⟩ := exists_finding h (Or.inl hsteady)
      have hfails := hclosed.unread_fails f hf (Or.inl hunread)
      by_contra hquiet
      exact Bool.false_ne_true (hfails.symm.trans ((audit_passed_iff h hf).mpr hquiet))
    · by_contra hcon
      simp only [not_or, not_exists, Bool.not_eq_false] at hcon
      have hpass : verdict findings d.watch = .pass :=
        (verdict_eq_pass_iff findings d.watch).mpr
          ⟨fun f hf ↦ (audit_passed_iff h hf).mpr (hcon.1 f.surface), hcon.2⟩
      exact hclosed.pass_read hpass .offlineMode (Or.inr (Or.inl ⟨by decide, henv⟩))
  · intro hguarded
    have hunread : ∀ f ∈ findings, d.SurfaceUnread f.surface → f.passed = false := by
      intro f hf hsurface
      rw [← Bool.not_eq_true, audit_passed_iff h hf, not_not]
      rcases hsurface with ⟨key, hkey, hunread⟩ | ⟨hmem, hnone⟩ | ⟨hparsing, hnone⟩
      · rcases decisive_or_shared hkey with hdecisive | hshared
        · exact absurd hunread (hguarded.decisive key hdecisive)
        · exact hguarded.shared f.surface hshared ⟨key, hkey, hunread⟩
      · -- without the flags the report has no surface of the environment
        have hsteady : f.surface ∈ steadySurfaces := by
          have hmap := List.mem_map_of_mem (f := Finding.surface) hf
          rwa [audit_surfaces h, hnone] at hmap
        exact absurd hmem (by revert hsteady; cases f.surface <;> decide)
      · rw [hparsing]
        simp [Deployment.Exposed, hnone]
    refine ⟨hunread, fun hpass s hs ↦ ?_, fun hpass ↦ ?_, fun hpass w hw ↦ ?_⟩
    · obtain ⟨hall, hwatch⟩ := (verdict_eq_pass_iff findings d.watch).mp hpass
      by_cases hfound : s ∈ steadySurfaces ∨ d.environment.isSome = true
      · obtain ⟨f, hf, rfl⟩ := exists_finding h hfound
        exact Bool.false_ne_true ((hunread f hf hs).symm.trans (hall f hf))
      · have hnone : d.environment = none := by simpa using (not_or.mp hfound).2
        rcases hguarded.environment hnone with ⟨t, ht⟩ | hquiet
        · -- what is exposed without the flags is a surface the report has
          have hsteady : t ∈ steadySurfaces := by
            rcases mem_surfaces t with henv | hsteady
            · revert henv ht
              cases t <;> simp [environmentSurfaces, Deployment.Exposed, hnone]
            · exact hsteady
          obtain ⟨f, hf, rfl⟩ := exists_finding h (Or.inl hsteady)
          exact (audit_passed_iff h hf).mp (hall f hf) ht
        · exact Bool.false_ne_true (hquiet.symm.trans hwatch)
    · exact ((verdict_eq_pass_iff findings d.watch).mp hpass).1
    · have hwatch := ((verdict_eq_pass_iff findings d.watch).mp hpass).2
      rw [Option.mem_def.mp hw] at hwatch
      simp only [Option.any_some, Bool.and_eq_true, Bool.not_eq_true'] at hwatch
      exact hwatch.2

end Audit

/-! ## A setting that cannot be read -/

/-- No name resolves, and no URL is asked for. -/
def sampleNetwork : Network where
  hostname _ := some none
  resolve _ := none

def sampleAddresses : IpAddress where
  parse _ := none

local instance : Casing := asciiCasing
local instance : IpAddress := sampleAddresses
local instance : Network := sampleNetwork
local instance : Runtime FloatLit := @Sop.textRuntime asciiTables

/-- An offline deployment whose watch runs and has seen nothing; of its settings, none of which is
set, one cannot be read. -/
def sampleDeployment (unread : PyStr) : Deployment FloatLit where
  valves := ⟨true, false⟩
  environment := some ⟨true, false, false⟩
  parserModel := some true
  store := ⟨none, fun key ↦ if key = unread then none else some .null⟩
  watch := some { EgressWatch.init 0 with alive := true }

theorem fails_closed_search :
    ∃ findings, (sampleDeployment (py "web.search.enable")).audit = some findings ∧
      (FailsClosed (sampleDeployment (py "web.search.enable")) findings ↔
        (sampleDeployment (py "web.search.enable")).Guarded) := by
  have haudit : (sampleDeployment (py "web.search.enable")).audit.isSome = true := by
    decide
  obtain ⟨findings, h⟩ := Option.isSome_iff_exists.mp haudit
  exact ⟨findings, h, fails_closed_iff h⟩

/-- Whether web search is enabled cannot be read: it is reported as disabled, and the verdict is
`PASS`. -/
theorem unread_search_passes :
    (sampleDeployment (py "web.search.enable")).store.Unread .webSearchEnable ∧
      ((sampleDeployment (py "web.search.enable")).audit.map fun findings ↦
        (findings.filter (·.surface = .webSearch),
          verdict findings (sampleDeployment (py "web.search.enable")).watch)) =
        some ([⟨.webSearch, true, py "disabled"⟩], .pass) := by
  decide

end FourCE.Sovereignty

import FourCE.Orchestrator.Routing
import FourCE.Sop.Disposition

/-!
# What the router and the agents get

A model chosen from the registry is the served model that the first capable and served entry stands for.
As ids meet by containment, that can be a model of which the registry has an entry of its own, without
the capability.  ULTRON's model crosses away from the routed model, and so meets the model that JARVIS
was given instead of it.
-/

namespace FourCE.Orchestrator

open FourCE.Python

section

variable [Casing]

/-! ## Matching names -/

theorem ne_nil_of_matchModel {wanted m : PyStr} {available : List PyStr}
    (h : matchModel wanted available [] = some m) : m ≠ [] := by
  unfold matchModel at h
  split_ifs at h with hblank hmem
  · rw [← Option.some.inj h]
    exact hblank
  · have hfound := List.find?_some h
    simp only [bne_iff_ne, ne_eq, Bool.and_eq_true, decide_eq_true_eq] at hfound
    exact hfound.1

variable {F : Type} [Runtime F]

/-- What an entry stands for, other than the routed model. -/
def otherThan (routed : PyStr) (available : List PyStr) (e : Dict F) : Option PyStr :=
  (matchModel (entryId e) available []).filter (· ≠ routed)

/-- `m` is the first model other than the routed one: of the entries, those that can verify first, or of
the served models where no entry stands for another. -/
def FirstOther (registry : Registry F) (routed : PyStr) (available : List PyStr) (m : PyStr) : Prop :=
  ∃ entries, verifiersFirst registry = some entries ∧
    ((∃ before e after, entries = before ++ e :: after ∧ otherThan routed available e = some m ∧
        ∀ b ∈ before, otherThan routed available b = none) ∨
      (∀ e ∈ entries, otherThan routed available e = none) ∧
        ∃ before after, available = before ++ m :: after ∧ m ≠ routed ∧ ∀ b ∈ before, b = routed)

theorem alternateModel_eq_some_iff {registry : Registry F} {routed m : PyStr} {available : List PyStr} :
    alternateModel registry routed available = some (some m) ↔
      FirstOther registry routed available m := by
  have hspare : available.find? (· ≠ routed) = some m ↔
      ∃ before after, available = before ++ m :: after ∧ m ≠ routed ∧ ∀ b ∈ before, b = routed := by
    rw [List.find?_eq_some_iff_append]
    simp only [decide_eq_true_eq, Bool.not_eq_eq_eq_not, Bool.not_true, decide_eq_false_iff_not, not_not]
    constructor
    · rintro ⟨hne, before, after, heq, hbefore⟩
      exact ⟨before, after, heq, hne, hbefore⟩
    · rintro ⟨before, after, heq, hne, hbefore⟩
      exact ⟨hne, before, after, heq, hbefore⟩
  unfold alternateModel FirstOther
  simp only [Option.bind_eq_bind, Option.bind_eq_some_iff]
  refine exists_congr fun entries ↦ and_congr_right fun _ ↦ ?_
  change some ((entries.findSome? (otherThan routed available)).or _) = _ ↔ _
  rw [Option.some.injEq, Option.or_eq_some_iff, List.findSome?_eq_some_iff,
    List.findSome?_eq_none_iff, hspare]

/-- Of two served models one is not the routed one. -/
theorem exists_firstOther {registry : Registry F} {routed : PyStr} {available : List PyStr}
    (hnodup : available.Nodup) (htwo : 2 ≤ available.length) {found : Option PyStr}
    (h : alternateModel registry routed available = some found) : ∃ m, found = some m := by
  unfold alternateModel at h
  simp only [Option.bind_eq_bind, Option.bind_eq_some_iff] at h
  obtain ⟨entries, -, h⟩ := h
  have hother : (available.find? (· ≠ routed)).isSome = true := by
    rw [List.find?_isSome]
    match available, hnodup, htwo with
    | a :: b :: rest, hnodup, _ =>
      by_cases ha : a = routed
      · have hab : a ≠ b := fun heq ↦ (List.nodup_cons.mp hnodup).1 (heq ▸ List.mem_cons_self)
        exact ⟨b, by simp, by simpa using fun hb : b = routed ↦ hab (ha.trans hb.symm)⟩
      · exact ⟨a, by simp, by simpa using ha⟩
  obtain ⟨spare, hspare⟩ := Option.isSome_iff_exists.mp hother
  rw [hspare] at h
  change some ((entries.findSome? (otherThan routed available)).or (some spare)) = some found at h
  rw [Option.some.injEq] at h
  cases hnamed : entries.findSome? (otherThan routed available) with
  | none => exact ⟨spare, by rw [← h, hnamed, Option.none_or]⟩
  | some m => exact ⟨m, by rw [← h, hnamed, Option.some_or]⟩

/-- The override names a served model. -/
def Names (override : PyStr) (available : List PyStr) (m : PyStr) : Prop :=
  strip override ≠ [] ∧ matchModel (strip override) available [] = some m

theorem jarvis_of_agentModel {registry : Registry F} {valves : ModelValves} {override routed j : PyStr}
    {available : List PyStr}
    (h : agentModel registry valves override routed available false = some j) :
    Names override available j ∨ j = routed ∧ ∀ m, ¬ Names override available m := by
  unfold agentModel at h
  rw [Bool.false_and, if_neg Bool.false_ne_true] at h
  split_ifs at h with hset
  · cases hmatch : matchModel (strip override) available [] with
    | none =>
      rw [hmatch] at h
      refine Or.inr ⟨(Option.some.inj h).symm, fun m hm ↦ ?_⟩
      rw [hm.2] at hmatch
      cases hmatch
    | some m =>
      have hj : m = j := by
        have hne := ne_nil_of_matchModel hmatch
        rw [hmatch] at h
        simpa [orModel, Option.filter, hne] using h
      exact Or.inl ⟨hset, hj ▸ hmatch⟩
  · exact Or.inr ⟨(Option.some.inj h).symm, fun m hm ↦ hset hm.1⟩

/-- ULTRON's model differs from JARVIS's exactly when no override gives JARVIS the first model other than
the routed one; where that model has no name ULTRON is left with the routed one. -/
theorem ultron_differs_iff (registry : Registry F) (valves : ModelValves) (routed : PyStr)
    (available : List PyStr) (agents : AgentModels) (hnodup : available.Nodup)
    (htwo : 2 ≤ available.length) (hon : valves.independentVerification = true)
    (hblank : strip valves.ultronModel = [])
    (h : agentModels registry valves routed available = some agents) :
    agents.ultron ≠ agents.jarvis ↔
      (∀ m, Names valves.jarvisModel available m → m ≠ routed →
        ¬ FirstOther registry routed available m) ∧
      (FirstOther registry routed available [] →
        ∃ m, Names valves.jarvisModel available m ∧ m ≠ routed) := by
  unfold agentModels at h
  simp only [Option.bind_eq_bind, Option.bind_eq_some_iff] at h
  obtain ⟨friday, -, jarvis, hjarvis, ultron, hultron, h⟩ := h
  obtain rfl : (⟨friday, jarvis, ultron⟩ : AgentModels) = agents := Option.some.inj h
  unfold agentModel at hultron
  rw [if_neg (not_not_intro hblank), if_pos (by simp [hon])] at hultron
  simp only [Option.bind_eq_bind, Option.bind_eq_some_iff] at hultron
  obtain ⟨found, hfound, hultron⟩ := hultron
  obtain ⟨m, rfl⟩ := exists_firstOther hnodup htwo hfound
  have hfirst : ∀ m', FirstOther registry routed available m' ↔ m' = m := by
    intro m'
    rw [← alternateModel_eq_some_iff, hfound, Option.some.injEq, Option.some.injEq, eq_comm]
  have hother : m ≠ routed := by
    obtain ⟨entries, -, hcase⟩ := (hfirst m).mpr rfl
    rcases hcase with ⟨before, e, after, -, hm, -⟩ | ⟨-, before, after, -, hne, -⟩
    · simpa using (Option.filter_eq_some_iff.mp hm).2
    · exact hne
  have hnamed : ∀ m', Names valves.jarvisModel available m' → m' = jarvis := by
    intro m' hm'
    rcases jarvis_of_agentModel hjarvis with hj | ⟨-, hnone⟩
    · have heq := hm'.2
      rw [hj.2, Option.some.injEq] at heq
      exact heq.symm
    · exact absurd hm' (hnone m')
  simp only [hfirst]
  have hu : ultron = if m = [] then routed else m := by
    rw [← Option.some.inj hultron]
    unfold orModel
    by_cases hm : m = [] <;> simp [hm, Option.filter]
  constructor
  · intro hdiffer
    refine ⟨fun m' hm' hne heq ↦ hdiffer ?_, fun hempty ↦ ?_⟩
    · have hm := ne_nil_of_matchModel hm'.2
      rw [hu, if_neg (heq ▸ hm), ← heq]
      exact hnamed m' hm'
    · rw [hu, if_pos hempty.symm] at hdiffer
      rcases jarvis_of_agentModel hjarvis with hj | ⟨hj, -⟩
      · exact ⟨jarvis, hj, hdiffer.symm⟩
      · exact absurd hj.symm hdiffer
  · rintro ⟨hcross, hempty⟩ hsame
    by_cases hm : m = []
    · obtain ⟨m', hm', hne⟩ := hempty hm.symm
      rw [hu, if_pos hm, ← hnamed m' hm'] at hsame
      exact hne hsame.symm
    · rw [hu, if_neg hm] at hsame
      rcases jarvis_of_agentModel hjarvis with hj | ⟨hj, -⟩
      · exact hcross jarvis hj (hsame ▸ hother) hsame.symm
      · exact hother (hsame.trans hj)

end

section Sample

local instance routeFloats : Runtime FloatLit := @Sop.textRuntime asciiTables

local instance routeCasing : Casing := asciiCasing

def noOverrides : ModelValves := ⟨[], [], [], [], [], [], [], true⟩

/-- Two models, both of which can verify. -/
def twoVerifiers : Registry FloatLit where
  models := [py "qwen", py "llama"].map fun id ↦
    .obj [(py "id", .str id), (py "capabilities", .arr [.str (py "verification")])]
  routing := .obj []

/-- JARVIS is given a model by name. -/
def jarvisNamed : ModelValves := { noOverrides with jarvisModel := py "llama" }

theorem ultron_differs_iff_jarvisNamed :
    py "llama" ≠ py "llama" ↔
      (∀ m, Names jarvisNamed.jarvisModel [py "qwen", py "llama"] m → m ≠ py "qwen" →
        ¬ FirstOther twoVerifiers (py "qwen") [py "qwen", py "llama"] m) ∧
      (FirstOther twoVerifiers (py "qwen") [py "qwen", py "llama"] [] →
        ∃ m, Names jarvisNamed.jarvisModel [py "qwen", py "llama"] m ∧ m ≠ py "qwen") :=
  ultron_differs_iff twoVerifiers jarvisNamed (py "qwen") [py "qwen", py "llama"]
    ⟨py "qwen", py "llama", py "llama"⟩ (by decide) (by decide) rfl rfl rfl

/-- ULTRON crosses over to the model that JARVIS was given. -/
theorem ultron_meets_jarvis :
    jarvisNamed.independentVerification = true ∧ strip jarvisNamed.ultronModel = [] ∧
      ∃ agents, agentModels twoVerifiers jarvisNamed (py "qwen") [py "qwen", py "llama"] = some agents ∧
        ¬ agents.ultron ≠ agents.jarvis :=
  ⟨rfl, rfl, ⟨py "qwen", py "llama", py "llama"⟩, rfl, fun h ↦ h rfl⟩

end Sample

end FourCE.Orchestrator

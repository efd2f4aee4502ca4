import FourCE.Python.JsonRoundTrip
import FourCE.Sidebar.Receipt

/-!
# What a run leaves in the chat

The message a run ends with when it shows its reasoning: the answer or the notice that it was
withheld, and behind it the record, whose receipt says how the run was approved.
-/

namespace FourCE.Sidebar

open FourCE.Python FourCE.Orchestrator

/-! ## Values with each key once -/

theorem wf_arr_map {A F : Type} {f : A → Json F} (h : ∀ x, (f x).wf = true) (xs : List A) :
    (Json.arr (xs.map f)).wf = true := by
  rw [Json.wf, wfElems_iff]
  intro v hv
  obtain ⟨x, -, rfl⟩ := List.mem_map.mp hv
  exact h x

theorem wf_check {F : Type} (c : Check) : (c.json : Json F).wf = true := by
  rw [Check.json]
  split_ifs
  · rfl
  · rfl
  · cases c.on <;> rfl

/-- An emitted text holds no control character, so no line break. -/
theorem printing_emit {F : Type} [PyFloat F] (spaced : Bool) (v : Json F) : ∀ c ∈ v.emit spaced, 32 ≤ c.val := by
  have hall : (v.emit spaced).all (fun c ↦ 32 ≤ c.val) = true := by
    rw [all_emit (fun c hc _ ↦ decide_eq_true hc)]
    refine allStrings_of_forall (fun s ↦ ?_) v
    rw [List.all_flatMap, List.all_eq_true]
    exact fun c _ ↦ printing_escapeChar c
  intro c hc
  exact of_decide_eq_true (List.all_eq_true.mp hall c hc)

theorem name_injective : Function.Injective Agent.name := by
  intro a b h
  cases a <;> cases b <;> first | rfl | exact absurd h (by decide)

/-! ## What a run stores -/

/-- What stands behind the text of an answer when its run ends; its dictionaries have each key
once. -/
structure Ending (F : Type) where
  facts : Facts F
  verdict : Verdict (Json F)
  includeThinking : Bool
  steps : List (Step F)
  trace : List PyStr
  approver : PyStr
  approvedAt : PyStr
  fingerprint : PyStr
  audit : PyStr
  agents : (facts.agentModels.map Prod.fst).Nodup
  egress : ∀ e ∈ facts.egress, (Json.obj e.dict).wf = true
  revision : ∀ r ∈ verdict.revision, r.wf = true

section

variable [Unicode] {F : Type}

def Ending.data [Casing] [PySeconds F] (e : Ending F) (approval : Approval) : List (PyStr × Json F) :=
  receiptData e.facts e.verdict approval e.approver e.approvedAt e.fingerprint e.steps

/-- `_provenance`, as the run ends. -/
def Ending.record [Casing] [PySeconds F] (e : Ending F) (approval : Approval) : PyStr :=
  provenance e.facts e.verdict approval e.includeThinking e.steps e.trace e.approver e.approvedAt
    e.fingerprint e.audit

/-- What the chat shows in place of an answer that was rejected, or that nobody reviewed. -/
def rejectedText : PyStr :=
  withheldNotice ++ py "The reviewer rejected this result, so 4CE has not released it."

def unansweredText : PyStr :=
  withheldNotice ++ (py "No reviewer answered the sign-off, so 4CE has not released this result. " ++
    py "Nothing was approved or rejected; ask again to review it.")

/-- The text in front of the record: the answer, or the notice that it was withheld. -/
def shownText (deliverable : PyStr) : Approval → PyStr
  | .rejected => rejectedText
  | .noReviewer => unansweredText
  | .notRequired | .noSession | .approved => deliverable

/-- What `_run_chain` returns with `show_reasoning` on. -/
def storedContent [Casing] [PySeconds F] (deliverable : PyStr) (approval : Approval) (e : Ending F) :
    PyStr :=
  shownText deliverable approval ++ py "\n\n" ++ e.record approval

/-! ## The receipt reads back -/

variable [Casing] [PySeconds F]

theorem dictGet_data (e : Ending F) (approval : Approval) :
    dictGet (e.data approval) (py "approval") = some (.str approval.text) := rfl

omit [Unicode] [Casing] [PySeconds F] in
theorem wf_agents (e : Ending F) :
    (Json.obj (e.facts.agentModels.map fun p ↦ (p.1.name, .str (baseName p.2))) : Json F).wf = true := by
  rw [wf_obj_iff]
  constructor
  · have hnames : (e.facts.agentModels.map Prod.fst).map Agent.name =
        (e.facts.agentModels.map fun p ↦ (p.1.name, (.str (baseName p.2) : Json F))).map Prod.fst := by
      simp
    rw [← hnames]
    exact e.agents.map name_injective
  · intro p hp
    obtain ⟨q, -, rfl⟩ := List.mem_map.mp hp
    rfl

/-- The keys of a receipt. -/
def receiptKeys : List PyStr :=
  [py "v", py "task", py "model", py "agents", py "sources", py "cited", py "verdict", py "reservations",
    py "failed_by", py "failed_on", py "attempts", py "checks", py "approval", py "approver",
    py "approved_at", py "seconds", py "tools", py "external_calls", py "egress", py "fingerprint",
    py "at", py "signals", py "steps"]

theorem keys_data (e : Ending F) (approval : Approval) :
    (e.data approval).map Prod.fst = receiptKeys ++ (e.verdict.revision.map fun _ ↦ py "revision").toList := by
  rw [Ending.data, receiptData, List.map_append]
  cases e.verdict.revision <;> rfl

omit [Unicode] [Casing] [PySeconds F] in
theorem wf_egress (e : Ending F) : (match e.facts.egress with
    | some e => .obj e.dict
    | none => .obj [(py "observed", .bool false)] : Json F).wf = true := by
  cases h : e.facts.egress with
  | none => rfl
  | some seen => exact e.egress seen h

omit [Unicode] [Casing] [PySeconds F] in
theorem wf_externalCalls (e : Ending F) : (match e.facts.egress.filter (·.observed) with
    | some e => .int e.external
    | none => .null : Json F).wf = true := by
  cases e.facts.egress.filter (·.observed) <;> rfl

theorem wf_data (e : Ending F) (approval : Approval) : (Json.obj (e.data approval)).wf = true := by
  rw [wf_obj_iff]
  constructor
  · have hkeys : receiptKeys.Nodup ∧ py "revision" ∉ receiptKeys := by decide
    rw [keys_data]
    cases e.verdict.revision with
    | none => simpa using hkeys.1
    | some r => exact List.nodup_append.mpr ⟨hkeys.1, List.nodup_singleton _, fun a ha b hb h ↦
        hkeys.2 (by rwa [h, List.mem_singleton.mp hb] at ha)⟩
  · rw [Ending.data, receiptData]
    refine List.forall_mem_append.mpr ⟨?_, ?_⟩
    · simp only [List.forall_mem_cons, List.not_mem_nil, false_implies, implies_true, and_true]
      exact ⟨rfl, rfl, rfl, wf_agents e, wf_arr_map (fun _ ↦ rfl) _, wf_arr_map (fun _ ↦ rfl) _, rfl, rfl,
        rfl, rfl, rfl, wf_arr_map wf_check _, rfl, rfl, rfl, rfl, wf_arr_map (fun _ ↦ rfl) _, wf_externalCalls e,
        wf_egress e, rfl, rfl, wf_arr_map (fun _ ↦ rfl) _, wf_arr_map (fun _ ↦ rfl) _⟩
    · intro p hp
      obtain ⟨r, hr, rfl⟩ := Option.map_eq_some_iff.mp (Option.mem_toList.mp hp)
      exact e.revision r hr

/-! ## The text that is stored -/

theorem record_eq (e : Ending F) (approval : Approval) :
    ∃ more, e.record approval = py "---\n\n" ++
      (fence ++ (10 :: ((Json.obj (e.data approval)).emit true ++ (closing ++ more)))) := by
  rw [Ending.record, provenance, provenanceRest, receipt]
  simp only [List.cons_append, join, List.append_assoc]
  exact ⟨_, rfl⟩

theorem storedContent_eq (deliverable : PyStr) (approval : Approval) (e : Ending F) :
    ∃ more, storedContent deliverable approval e = shownText deliverable approval ++ glue ++
      (fence ++ (10 :: ((Json.obj (e.data approval)).emit true ++ (closing ++ more)))) := by
  obtain ⟨more, hrecord⟩ := record_eq e approval
  exact ⟨more, by rw [storedContent, hrecord, List.append_assoc, List.append_assoc]; rfl⟩

/-- Without a receipt of the answer's own, the one that is found is the record's. -/
theorem receiptBody_storedContent {deliverable : PyStr} {approval : Approval}
    (h : ¬ OpensReceipt (shownText deliverable approval)) (e : Ending F) :
    receiptBody (storedContent deliverable approval e) =
      some ((Json.obj (e.data approval)).emit true) := by
  obtain ⟨more, hcontent⟩ := storedContent_eq deliverable approval e
  have hprinting := printing_emit true (Json.obj (e.data approval))
  obtain ⟨g, hg⟩ : ∃ g, (Json.obj (e.data approval)).emit true = 123 :: g := ⟨_, rfl⟩
  rw [hcontent]
  rw [hg] at hprinting ⊢
  exact receiptBody_of_not_opens h rfl fun h ↦ absurd (hprinting 10 h) (by decide)

end

/-! ## What the chain ends with -/

section

variable [Unicode] [Casing] {F : Type} [PySeconds F] (env : Env F)

/-- A run whose dictionaries have each key once. -/
structure Keyed (r : Finished F) : Prop where
  agents : (r.gathered.agentModels.map Prod.fst).Nodup
  revision : ∀ x ∈ r.verdict.revision, x.wf = true
  egress : ∀ events, ∀ e ∈ env.egress events, (Json.obj e.dict).wf = true

theorem provenanceText_ends {r : Finished F} (h : Keyed env r) (approval : Approval) (waited : F)
    (approver approvedAt fingerprint audit : PyStr) (w : World F) :
    ∃ e : Ending F, (provenanceText env r approval waited approver approvedAt fingerprint audit).run.run w =
      (.ok (e.record approval), w) :=
  ⟨⟨_, r.verdict, env.valves.showModelThinking, w.steps, if env.valves.showTrace then w.trace else [],
    approver, approvedAt, fingerprint, audit, h.agents, h.egress _, h.revision⟩, rfl⟩

/-- The run with its reasoning hidden. -/
def unreasoned : Env F := { env with valves := { env.valves with showReasoning := false } }

/-- A run that is released stores its answer and the record behind it; with its reasoning hidden it shows
the answer alone. -/
theorem release_answers {r : Finished F} (hkeyed : Keyed env r) (hshow : env.valves.showReasoning = true)
    {approval : Approval} {waited : F} {stamp : PyStr × PyStr} {v w : World F} {way : Way} {text : PyStr}
    (h : (release env r approval waited stamp).run.run v = (.ok (.text way text), w)) :
    ∃ (answer : PyStr) (e : Ending F), text = answer ++ py "\n\n" ++ e.record approval ∧
      ∃ w', (release (unreasoned env) r approval waited stamp).run.run v = (.ok (.text .released answer), w') := by
  obtain ⟨fingerprint, w₁, hfingerprint, h⟩ := run_bind_ok h
  obtain ⟨answer, w₂, hanswer, h⟩ := run_bind_ok h
  obtain ⟨u, w₃, hdone, h⟩ := run_bind_ok h
  rw [hshow] at h
  obtain ⟨history, w₄, -, h⟩ := run_bind_ok h
  obtain ⟨record, w₅, hrecord, h⟩ := run_bind_ok h
  obtain ⟨e, he⟩ := provenanceText_ends env (r := r.cited) ⟨hkeyed.agents, hkeyed.revision, hkeyed.egress⟩
    approval waited (if approval = .approved then strip r.gathered.intake.user.approver else []) stamp.2
    fingerprint (env.trailSpan history) w₄
  obtain rfl : e.record approval = record := by
    have heq := he.symm.trans hrecord
    cases heq
    rfl
  cases h
  refine ⟨answer, e, rfl, w₃, ?_⟩
  have hfingerprint : (fingerprintOf (unreasoned env) approval r.last.deliverable).run.run v =
      (.ok fingerprint, w₁) := hfingerprint
  have hanswer : (releaseFiles (unreasoned env) r.cited approval waited stamp fingerprint).run.run w₁ =
      (.ok answer, w₂) := hanswer
  rw [release, run_bind, hfingerprint]
  dsimp only
  rw [run_bind, hanswer]
  dsimp only
  rw [run_bind, hdone]
  rfl

theorem withhold_ends {r : Finished F} (h : Keyed env r) {approval : Approval} {waited : F}
    {reason description : PyStr} {w w' : World F} {e : Ended}
    (hrun : (withhold env r approval waited reason description).run.run w = (.error e, w')) :
    ∃ ending : Ending F, e = .text .withheld (withheldNotice ++ reason ++ ending.record approval) := by
  rcases run_bind_error hrun with hrun | ⟨-, v, -, hrun⟩
  · cases hrun
  obtain ⟨ending, hrecord⟩ := provenanceText_ends env h approval waited [] [] [] [] v
  rcases run_bind_error hrun with hrun | ⟨record, v', hok, hrun⟩
  · rw [hrecord] at hrun
    cases hrun
  rw [hrecord] at hok
  cases hok
  cases hrun
  exact ⟨ending, rfl⟩

theorem decided_ends {r : Finished F} (h : Keyed env r) {waited : F} {decision : PyStr}
    {w w' : World F} {ended : Ended} (hrun : (decided env r waited decision).run.run w = (.error ended, w')) :
    ∃ e : Ending F, ∀ answer, ended = .text .withheld (storedContent answer .rejected e) := by
  rw [decided] at hrun
  split_ifs at hrun with happroves
  · rcases run_bind_error hrun with hrun | ⟨-, v, -, hrun⟩
    · cases hrun
    cases hrun
  · rcases run_bind_error hrun with hrun | ⟨-, v, -, hrun⟩
    · cases hrun
    rcases run_bind_error hrun with hrun | ⟨-, v', -, hrun⟩
    · cases hrun
    obtain ⟨e, he⟩ := withhold_ends env h hrun
    exact ⟨e, fun answer ↦ he⟩

theorem askReviewer_ends {r : Finished F} (h : Keyed env r) {w w' : World F} {ended : Ended}
    (hrun : (askReviewer env r).run.run w = (.error ended, w')) :
    ∃ (approval : Approval) (e : Ending F), (approval = .rejected ∨ approval = .noReviewer) ∧
      ∀ answer, ended = .text .withheld (storedContent answer approval e) := by
  rcases run_bind_error hrun with hrun | ⟨-, v₁, -, hrun⟩
  · cases hrun
  rcases run_bind_error hrun with hrun | ⟨before, v₂, -, hrun⟩
  · cases hrun
  rcases run_bind_error hrun with hrun | ⟨-, v₃, -, hrun⟩
  · cases hrun
  rcases run_bind_error hrun with hrun | ⟨asked, v₄, -, hrun⟩
  · cases hrun
  rcases run_bind_error hrun with hrun | ⟨answered, v₅, -, hrun⟩
  · cases hrun
  cases hresponse : env.reviewer asked with
  | error why =>
    simp only [hresponse] at hrun
    rcases run_bind_error hrun with hrun | ⟨-, v₆, -, hrun⟩
    · cases hrun
    rcases run_bind_error hrun with hrun | ⟨-, v₇, -, hrun⟩
    · cases hrun
    obtain ⟨e, he⟩ := withhold_ends env h hrun
    exact ⟨.noReviewer, e, Or.inr rfl, fun answer ↦ he⟩
  | str text =>
    simp only [hresponse] at hrun
    obtain ⟨e, he⟩ := decided_ends env h hrun
    exact ⟨.rejected, e, Or.inl rfl, he⟩
  | other =>
    simp only [hresponse] at hrun
    obtain ⟨e, he⟩ := decided_ends env h hrun
    exact ⟨.rejected, e, Or.inl rfl, he⟩

/-- A run that the gate ends stores the notice that its answer was withheld, and the record. -/
theorem signOff_stores {r : Finished F} (h : Keyed env r) {w w' : World F} {ended : Ended}
    (hrun : (signOff env r).run.run w = (.error ended, w')) :
    ∃ (approval : Approval) (e : Ending F), (approval = .rejected ∨ approval = .noReviewer) ∧
      ∀ answer, ended = .text .withheld (storedContent answer approval e) := by
  rw [signOff] at hrun
  split_ifs at hrun with hrequired hinteractive
  · cases hrun
  · exact askReviewer_ends env h hrun
  · rcases run_bind_error hrun with hrun | ⟨-, v, -, hrun⟩
    · cases hrun
    rcases run_bind_error hrun with hrun | ⟨-, v, -, hrun⟩
    · cases hrun
    cases hrun

end

end FourCE.Sidebar

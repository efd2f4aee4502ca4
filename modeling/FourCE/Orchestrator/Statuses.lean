import FourCE.Library.Ledger
import FourCE.Orchestrator.Release

/-!
# The statuses of a run

What each part of the chain writes in the run's ledger: the stages it announces, and the status it
closes with where it ends the run.
-/

namespace FourCE.Orchestrator

open FourCE.Python FourCE.Tools FourCE.Library.Ledger

section

variable {F : Type}

/-! ## Entries -/

/-- The actions of a run before its model is chosen. -/
def planning : List PyStr := [py "tony", py "tony_plan", py "router"]

/-- The actions of a run at work. -/
def stages : List PyStr :=
  [py "tony", py "tony_plan", py "router", py "tony_replan", py "friday", py "jarvis", py "ultron", py "tool"]

theorem planning_subset_stages : ∀ a ∈ planning, a ∈ stages := by
  decide

/-- An entry of a part at work: a status only of these actions, left open, and no question. -/
def Working (actions : List PyStr) : Event F → Prop
  | .status action _ done => action ∈ actions ∧ done = false
  | .ask _ => False
  | .source _ | .audit _ _ | .agent _ _ _ | .tool _ => True

theorem Working.mono {actions more : List PyStr} (h : ∀ a ∈ actions, a ∈ more) :
    ∀ e : Event F, Working actions e → Working more e
  | .status action _ _, hw => ⟨h action hw.1, hw.2⟩
  | .source _, _ | .audit _ _, _ | .agent _ _ _, _ | .tool _, _ => trivial

/-- The run is not ended by a text. -/
def NoText (e : Ended) : Prop := ∀ way text, e ≠ .text way text

/-- A part that only announces these actions, and ends the run by an exception if at all. -/
abbrev Announces {A : Type} (actions : List PyStr) (V : A → Prop) (x : Chain F A) : Prop :=
  Only World.events (Working actions) NoText V x

variable {A B : Type} {actions : List PyStr} {V : A → Prop} {W : B → Prop}

theorem Announces.of_subset {more : List PyStr} {x : Chain F A} (h : Announces actions V x)
    (hsub : ∀ a ∈ actions, a ∈ more) : Announces more V x :=
  h.mono (Working.mono hsub) (fun _ he ↦ he) fun _ hv ↦ hv

theorem Announces.weaken {x : Chain F A} (h : Announces actions V x) : Announces actions (fun _ ↦ True) x :=
  h.mono (fun _ he ↦ he) (fun _ he ↦ he) fun _ _ ↦ trivial

/-! ## The smallest parts -/

theorem leaves_emit (e : Event F) : Leaves World.events [e] (emit e) :=
  leaves_modify fun _ ↦ rfl

theorem leaves_addTrace (line : PyStr) : Leaves World.events [] (addTrace (F := F) line) :=
  leaves_silently fun _ ↦ rfl

theorem leaves_addStep (s : Step F) : Leaves World.events [] (addStep s) :=
  leaves_silently fun _ ↦ rfl

theorem leaves_history : Leaves World.events [] (history (F := F)) :=
  Leaves.bind leaves_get fun _ ↦ adds_pure ⟨⟨_, rfl⟩, rfl⟩

section

variable {X : Ended → Prop}

theorem only_emit {e : Event F} (h : Working actions e) :
    Only World.events (Working actions) X (fun _ ↦ True) (emit e) :=
  only_modify [e] (fun _ ↦ rfl) (by simpa using h) trivial

theorem only_audit (action : PyStr) (fields : List (PyStr × Json F)) :
    Only World.events (Working actions) X (fun _ ↦ True) (emit (.audit action fields)) :=
  only_emit trivial

theorem only_status {action : PyStr} (h : action ∈ actions) (description : PyStr) :
    Only World.events (Working actions) X (fun _ ↦ True) (status (F := F) action description) :=
  only_emit ⟨h, rfl⟩

/-- What changes no event. -/
theorem only_silently {g : World F → World F} (h : ∀ w, (g w).events = w.events) :
    Only World.events (Working actions) X (fun _ ↦ True) (modify g : Chain F Unit) :=
  only_modify [] (fun w ↦ by rw [h w, List.append_nil]) (by simp) trivial

theorem only_addTrace (line : PyStr) :
    Only World.events (Working actions) X (fun _ ↦ True) (addTrace (F := F) line) :=
  only_silently fun _ ↦ rfl

theorem only_addStep (s : Step F) : Only World.events (Working actions) X (fun _ ↦ True) (addStep s) :=
  only_silently fun _ ↦ rfl

theorem only_addFiles (files : List FileEffect) :
    Only World.events (Working actions) X (fun _ ↦ True) (addFiles (F := F) files) :=
  only_silently fun _ ↦ rfl

theorem only_useAgain (name : PyStr) :
    Only World.events (Working actions) X (fun _ ↦ True) (useAgain (F := F) name) :=
  only_silently fun _ ↦ rfl

theorem only_useOnce (name : PyStr) :
    Only World.events (Working actions) X (fun _ ↦ True) (useOnce (F := F) name) := by
  refine only_silently fun w ↦ ?_
  split_ifs <;> rfl

theorem only_history : Only World.events (Working actions) X (fun _ ↦ True) (history (F := F)) :=
  (only_get fun _ ↦ trivial).bind fun _ _ ↦ only_pure trivial

theorem only_digest (env : Env F) (hX : ∀ e, NoText e → X e) (text : PyStr) :
    Only World.events (Working actions) X (fun _ ↦ True) (digest env text) := by
  rw [digest]
  cases encodeUtf8 text with
  | some bytes => exact only_pure trivial
  | none => exact only_throw (hX _ fun _ _ h ↦ by cases h)

end

/-! ## Failures -/

/-- Where a part ends the run with a text, it has failed, and its last entry closes an error. -/
def MayFail {A : Type} (V : A → Prop) (r : Except Ended A) (new : History F) : Prop :=
  match r with
  | .ok a => (∀ e ∈ new, Working stages e) ∧ V a
  | .error ended => ∀ way text, ended = .text way text → way = .failed ∧
      ∃ before description, new = before ++ [.status (py "error") description true] ∧
        ∀ e ∈ before, Working stages e

theorem MayFail.prepend {r : Except Ended A} {first rest : History F} (hfirst : ∀ e ∈ first, Working stages e)
    (h : MayFail V r rest) : MayFail V r (first ++ rest) := by
  cases r with
  | ok a => exact ⟨fun e he ↦ (List.mem_append.mp he).elim (hfirst e) (h.1 e), h.2⟩
  | error ended =>
    intro way text hend
    obtain ⟨hway, before, description, rfl, hbefore⟩ := h way text hend
    refine ⟨hway, first ++ before, description, (List.append_assoc _ _ _).symm, fun e he ↦ ?_⟩
    exact (List.mem_append.mp he).elim (hfirst e) (hbefore e)

/-- Parts that may fail, one after the other. -/
theorem mayFail_bind {x : Chain F A} {f : A → Chain F B} (hx : Adds World.events x (MayFail V))
    (hf : ∀ a, V a → Adds World.events (f a) (MayFail W)) : Adds World.events (x >>= f) (MayFail W) :=
  Adds.bind hx (fun _ _ h ↦ h) fun a _ h ↦ (hf a h.2).mono fun _ _ ↦ MayFail.prepend h.1

theorem mayFail_of_announces {x : Chain F A} (h : Announces stages V x) : Adds World.events x (MayFail V) := by
  refine Adds.mono h fun r new hr ↦ ?_
  cases r with
  | ok a => exact hr
  | error ended => exact fun way text hend ↦ absurd hend (hr.2 way text)

theorem mayFail_fail (description text : PyStr) :
    Adds World.events (do statusDone (py "error") description; finish .failed text : Chain F A) (MayFail V) := by
  refine (leaves_emit _).adds_bind fun _ ↦ adds_throw ?_
  rintro way text' ⟨⟩
  exact ⟨rfl, [], description, rfl, by simp⟩

variable (env : Env F)

/-! ## Calls -/

/-- The line of a failure begins as an error does. -/
theorem startsWith_failureText (what detail : PyStr) : startsWith ERR (failureText env what detail) = true := by
  rw [failureText, startsWith, List.isPrefixOf_iff_prefix]
  split_ifs
  · exact ⟨_, (List.append_assoc _ _ _).symm⟩
  all_goals
    simp only [List.append_assoc]
    exact List.prefix_append _ _

theorem announces_useTool (call : ToolCall F) : Announces actions (fun _ ↦ True) (useTool env call) := by
  rw [useTool]
  split
  · exact only_pure trivial
  · refine only_history.bind fun before _ ↦ (only_emit (e := .tool _) trivial).bind fun _ _ ↦
      (only_addFiles _).bind fun _ _ ↦ ?_
    split
    · exact (only_audit _ _).bind fun _ _ ↦ only_pure trivial
    · exact (only_digest env (fun _ h ↦ h) _).bind fun _ _ ↦ (only_audit _ _).bind fun _ _ ↦ only_pure trivial

variable [PySeconds F]

/-- A reply is stripped, or the line of a failure. -/
theorem announces_agentCall (role : Role) (model instruction : PyStr) :
    Announces actions (fun s ↦ Stripped s.text ∨ startsWith ERR s.text = true)
      (agentCall env role model instruction) := by
  rw [agentCall]
  refine only_history.bind fun _ _ ↦ (only_emit (e := .agent _ _ _) trivial).bind fun _ _ ↦
    only_history.bind fun before _ ↦ only_history.bind fun _ _ ↦ ?_
  split
  · exact (only_audit _ _).bind fun _ _ ↦ only_pure (Or.inr (startsWith_failureText env _ _))
  · refine (only_digest env (fun _ h ↦ h) _).bind fun _ _ ↦ (only_audit _ _).bind fun _ _ ↦ ?_
    dsimp only
    split_ifs
    · exact only_pure (Or.inr (startsWith_failureText env _ _))
    · exact only_pure (Or.inl (stripped_strip _))
    · exact only_pure (Or.inl (stripped_strip _))

/-! ## Before the loop -/

/-- What a run leaves that ends before its model is chosen. -/
def Early (way : Way) (new : History F) : Prop :=
  match way with
  | .task | .noRequest => new = []
  | .noUser | .noModel => (∀ e ∈ new, Working planning e) ∧
      ∃ action description, .status action description false ∈ new
  | .direct | .failed | .withheld | .released => False

def LacksModel (e : Ended) : Prop := NoText e ∨ ∃ text, e = .text .noModel text

theorem adds_intake : Adds World.events (intake env) fun r new ↦
    (∀ c, r = .ok c → ∀ e ∈ new, Working planning e) ∧
      ∀ way text, r = .error (.text way text) → Early way new := by
  rw [intake]
  split_ifs with htask
  · exact adds_throw (by simp [Early])
  refine leaves_history.adds_bind fun _ ↦ ?_
  cases env.request with
  | none => exact adds_throw (by simp [Early])
  | some request =>
    refine (leaves_emit _).adds_bind fun _ ↦ ?_
    cases env.user with
    | none => exact adds_throw (by simp [Early, Working, planning])
    | some user =>
      refine Adds.mono (show Only World.events (Working planning) LacksModel (fun _ ↦ True) _ from ?_) ?_
      · refine (only_digest env (fun _ ↦ Or.inl) _).bind fun _ _ ↦ (only_audit _ _).bind fun _ _ ↦ ?_
        extract_lets looking found sources text retrieved grounding route
        have hroute (u : Unit) : Only World.events (Working planning) LacksModel (fun _ ↦ True) (route u) := by
          refine (only_status (by simp [planning]) _).bind fun _ _ ↦ (only_addTrace _).bind fun _ _ ↦ ?_
          split
          · exact only_throw (Or.inr ⟨_, rfl⟩)
          · exact (only_status (by simp [planning]) _).bind fun _ _ ↦ (only_addTrace _).bind fun _ _ ↦
              (only_audit _ _).bind fun _ _ ↦ (only_addStep _).bind fun _ _ ↦ only_pure trivial
        split_ifs with hfound
        · refine Only.bind (only_forIn (fun source _ ↦ ?_) sources _) fun _ _ ↦
            (only_digest env (fun _ ↦ Or.inl) _).bind fun _ _ ↦ (only_audit _ _).bind fun u _ ↦ hroute u
          exact (only_emit (e := .source source) trivial).bind fun _ _ ↦ only_pure trivial
        · exact hroute ()
      · intro r new hnew
        have hworking : ∀ e ∈ [Event.status (F := F) (py "tony") (py "TONY: reading the request") false] ++ new,
            Working planning e := by
          intro e he
          rcases List.mem_cons.mp he with rfl | he
          · exact ⟨by simp [planning], rfl⟩
          · exact hnew.1 e he
        refine ⟨fun c hc ↦ hworking, fun way text hend ↦ ?_⟩
        subst hend
        rcases hnew.2 with hno | ⟨text', htext⟩
        · exact absurd rfl (hno way text)
        · cases htext
          exact ⟨hworking, _, _, List.mem_cons_self⟩

theorem announces_sovereigntyAudit (c : Intake F) :
    Announces stages (fun _ ↦ True) (sovereigntyAudit env c) := by
  rw [sovereigntyAudit]
  split_ifs
  · refine (only_status (by simp [stages]) _).bind fun _ _ ↦ (announces_useTool env _).bind fun audit _ ↦ ?_
    split_ifs
    · exact (only_useAgain _).bind fun _ _ ↦ (only_addStep _).bind fun _ _ ↦ (only_addTrace _).bind fun _ _ ↦
        only_pure trivial
    · exact only_pure trivial
  · exact only_pure trivial

theorem announces_readImage (c : Intake F) : Announces stages (fun _ ↦ True) (readImage env c) := by
  rw [readImage]
  split_ifs
  · exact only_pure trivial
  refine (only_status (by simp [stages]) _).bind fun _ _ ↦
    (announces_agentCall env _ _ _).weaken.bind fun read _ ↦ ?_
  split
  · exact (only_addTrace _).bind fun _ _ ↦ only_pure trivial
  split
  · exact (only_addStep _).bind fun _ _ ↦ (only_addTrace _).bind fun _ _ ↦ only_pure trivial
  · exact only_history.bind fun _ _ ↦ (only_addStep _).bind fun _ _ ↦ (only_addTrace _).bind fun _ _ ↦
      only_pure trivial

theorem announces_sopCheck (readings roundLabel : PyStr) :
    Announces stages (fun _ ↦ True) (sopCheck env readings roundLabel) := by
  rw [sopCheck]
  refine (only_status (by simp [stages]) _).bind fun _ _ ↦ (announces_useTool env _).bind fun sop _ ↦ ?_
  split_ifs
  · exact only_pure trivial
  · exact (only_useOnce _).bind fun _ _ ↦ (only_addStep _).bind fun _ _ ↦ (only_addTrace _).bind fun _ _ ↦
      only_pure trivial

theorem announces_readSheets (c : Intake F) : Announces stages (fun _ ↦ True) (readSheets env c) := by
  rw [readSheets]
  split
  · exact only_pure trivial
  refine (only_status (by simp [stages]) _).bind fun _ _ ↦ (announces_useTool env _).bind fun read _ ↦ ?_
  split
  · exact (only_useAgain _).bind fun _ _ ↦ (only_addStep _).bind fun _ _ ↦ (only_addTrace _).bind fun _ _ ↦
      only_pure trivial
  · exact (only_addTrace _).bind fun _ _ ↦ only_pure trivial

omit [PySeconds F] in
theorem announces_surveyInterval (row : SurveyRow F) :
    Announces stages (fun _ ↦ True) (surveyInterval env row) :=
  (announces_useTool env _).bind fun _ _ ↦ only_pure trivial

theorem announces_surveyIntervals (sheetText : PyStr) :
    Announces stages (fun _ ↦ True) (surveyIntervals env sheetText) := by
  rw [surveyIntervals]
  split_ifs
  · exact only_pure trivial
  refine (only_status (by simp [stages]) _).bind fun _ _ ↦
    (only_mapM (announces_surveyInterval env) _).bind fun found _ ↦ (only_useOnce _).bind fun _ _ ↦
      (only_addStep _).bind fun _ _ ↦ (only_addTrace _).bind fun _ _ ↦ ?_
  split_ifs
  · exact only_pure trivial
  · exact only_pure trivial

theorem announces_remainingLife [Unicode] (text sop rowBasis : PyStr) :
    Announces stages (fun _ ↦ True) (remainingLife env text sop rowBasis) := by
  rw [remainingLife]
  refine (only_status (by simp [stages]) _).bind fun _ _ ↦ ?_
  refine (announces_useTool env _).bind fun out _ ↦ ?_
  split_ifs
  · exact only_pure trivial
  split
  · exact only_pure trivial
  · exact (only_useOnce _).bind fun _ _ ↦ (only_addStep _).bind fun _ _ ↦ (only_addTrace _).bind fun _ _ ↦
      only_pure trivial

theorem announces_gather [Unicode] (c : Intake F) : Announces stages (fun _ ↦ True) (gather env c) := by
  rw [gather]
  refine only_ite_skip (fun _ ↦ only_addTrace _) (only_ite_skip (fun _ ↦ only_addTrace _) ?_)
  refine (announces_sovereigntyAudit env c).bind fun audit _ ↦ ?_
  refine only_ite_bind (fun _ ↦ announces_readImage env c) (fun _ ↦ only_pure trivial) fun reading _ ↦ ?_
  refine only_ite_bind (fun _ ↦ only_pure trivial) (fun _ ↦ announces_sopCheck env _ _) fun requestSop _ ↦ ?_
  refine (announces_readSheets env c).bind fun sheet _ ↦ ?_
  refine only_ite_bind (fun _ ↦ announces_surveyIntervals env _) (fun _ ↦ only_pure trivial) fun survey _ ↦ ?_
  refine only_ite_bind (fun _ ↦ announces_remainingLife env _ _ _) (fun _ ↦ only_pure trivial) fun life _ ↦ ?_
  exact only_pure trivial

/-! ## The loop -/

theorem adds_analyse (g : Gathered F) (attempts : ℕ) (challenge : Option PyStr) :
    Adds World.events (analyse env g attempts challenge) (MayFail fun _ ↦ True) := by
  rw [analyse]
  refine mayFail_bind (mayFail_of_announces (only_status (by simp [stages]) _)) fun _ _ ↦
    mayFail_bind (mayFail_of_announces (announces_agentCall env _ _ _)) fun friday _ ↦ ?_
  split
  · exact mayFail_fail _ _
  · refine mayFail_of_announces ((only_addStep _).bind fun _ _ ↦ (only_addTrace _).bind fun _ _ ↦ ?_)
    exact only_ite_bind (fun _ ↦ announces_sopCheck env _ _) (fun _ ↦ only_pure trivial) fun sop _ ↦
      only_pure trivial

variable [Unicode]

theorem announces_previewChanges (g : Gathered F) (text : PyStr) :
    Announces stages (fun _ ↦ True) (previewChanges env g text) := by
  rw [previewChanges]
  split
  · exact only_pure trivial
  split
  · exact only_pure trivial
  · exact (announces_useTool env _).bind fun _ _ ↦ only_pure trivial

theorem adds_draft (g : Gathered F) (attempts : ℕ) (challenge : Option PyStr) (analysis grounded : PyStr) :
    Adds World.events (draft env g attempts challenge analysis grounded) (MayFail fun _ ↦ True) := by
  rw [draft]
  refine mayFail_bind (mayFail_of_announces (only_status (by simp [stages]) _)) fun _ _ ↦
    mayFail_bind (mayFail_of_announces (announces_agentCall env _ _ _)) fun jarvis _ ↦ ?_
  extract_lets deliverable
  split
  · exact mayFail_fail _ _
  · exact mayFail_of_announces ((announces_previewChanges env g _).bind fun planned _ ↦
      (only_addStep _).bind fun _ _ ↦ (only_addTrace _).bind fun _ _ ↦ only_pure trivial)

theorem announces_execute (g : Gathered F) (attempts : ℕ) (d : Drafted F) :
    Announces stages (fun _ ↦ True) (execute env g attempts d) := by
  rw [execute]
  split
  · exact only_pure trivial
  extract_lets code
  split
  · exact only_pure trivial
  refine (only_status (by simp [stages]) _).bind fun _ _ ↦ (announces_useTool env _).bind fun execution _ ↦ ?_
  refine only_ite_skip (fun _ ↦ ?_) (only_pure trivial)
  exact (only_useOnce _).bind fun _ _ ↦ (only_addStep _).bind fun _ _ ↦ only_addTrace _

variable [Casing]

theorem parseVerdict_revision {R : Type} (reply : PyStr) : (parseVerdict reply : Verdict R).revision = none := by
  rw [parseVerdict]
  extract_lets text
  split
  · rfl
  · split <;> rfl

omit [PySeconds F] [Casing] in
theorem failOwn_revision (ran : Option Check) (v : Verdict (Json F)) :
    (failOwn ran v).revision = v.revision := by
  rw [failOwn]
  split
  · rfl
  · split_ifs <;> rfl

omit [PySeconds F] [Casing] in
theorem failUnexecuted_revision (ran : Option Check) (v : Verdict (Json F)) :
    (failUnexecuted ran v).revision = v.revision := by
  unfold failUnexecuted
  split
  · split_ifs <;> rfl
  · rfl

omit [PySeconds F] in
/-- A verdict comes without a revision. -/
theorem judge_revision (reply : PyStr) (ran : Option Check) (own : List OwnCheck) (deliverable : PyStr) :
    (judge reply ran own deliverable : Verdict (Json F)).revision = none := by
  have hreservations (v : Verdict (Json F)) : (withReservations v).revision = v.revision := by
    rw [withReservations]
    split_ifs <;> rfl
  rw [judge, hreservations, failUnexecuted_revision, failOwn_revision]
  exact parseVerdict_revision reply

theorem announces_challengeDraft (g : Gathered F) (attempts : ℕ) (sop grounded : PyStr) (ran : Option Check)
    (d : Drafted F) :
    Announces stages (fun v ↦ v.revision = none) (challengeDraft env g attempts sop grounded ran d) := by
  rw [challengeDraft]
  refine (only_status (by simp [stages]) _).bind fun _ _ ↦
    (announces_agentCall env _ _ _).weaken.bind fun ultron _ ↦ ?_
  exact (only_addStep _).bind fun _ _ ↦ (only_addTrace _).bind fun _ _ ↦ only_pure (judge_revision _ _ _ _)

theorem adds_attempt (g : Gathered F) (attempts : ℕ) (challenge : Option PyStr) :
    Adds World.events (attempt env g attempts challenge) (MayFail fun a ↦ a.verdict.revision = none) := by
  rw [attempt]
  refine mayFail_bind (adds_analyse env g attempts challenge) fun ⟨analysis, sop⟩ _ ↦
    mayFail_bind (adds_draft env g attempts challenge _ _) fun drafted _ ↦
      mayFail_bind (mayFail_of_announces (announces_execute env g attempts drafted)) fun ⟨ran, d⟩ _ ↦ ?_
  dsimp only
  split
  · exact mayFail_of_announces (only_pure rfl)
  · exact mayFail_bind (mayFail_of_announces (announces_challengeDraft env g attempts _ _ _ _)) fun verdict hv ↦
      mayFail_of_announces (only_pure hv)

theorem adds_draftLoop (g : Gathered F) (fuel attempts : ℕ) (challenge : Option PyStr)
    (first : Option FirstTry) :
    Adds World.events (draftLoop env g fuel attempts challenge first)
      (MayFail fun result ↦ result.1.verdict.revision = none) := by
  induction fuel generalizing attempts challenge first with
  | zero => exact adds_throw (by simp [MayFail])
  | succ fuel ih =>
    rw [draftLoop]
    refine mayFail_bind (adds_attempt env g _ _) fun a ha ↦ ?_
    split
    · exact mayFail_of_announces (only_pure ha)
    split
    · exact mayFail_of_announces ((only_status (by simp [stages]) _).bind fun _ _ ↦ only_pure ha)
    refine mayFail_bind (mayFail_of_announces (only_status (by simp [stages]) _)) fun _ _ ↦ ?_
    split
    · exact mayFail_bind (mayFail_of_announces (only_status (by simp [stages]) _)) fun _ _ ↦
        mayFail_bind (mayFail_of_announces (only_addTrace _)) fun _ _ ↦ ih _ _ _
    · exact mayFail_of_announces ((only_addTrace _).bind fun _ _ ↦ only_pure ha)

/-! ## Sign-off -/

omit [PySeconds F] [Unicode] in
theorem announces_auditVerdict (r : Finished F) : Announces stages (fun _ ↦ True) (auditVerdict env r) :=
  (only_digest env (fun _ h ↦ h) _).bind fun _ _ ↦ only_audit _ _

theorem leaves_provenanceText (r : Finished F) (approval : Approval) (waited : F)
    (approver approvedAt fingerprint audit : PyStr) :
    Leaves World.events [] (provenanceText env r approval waited approver approvedAt fingerprint audit) := by
  have hfacts : Leaves World.events [] (facts env r waited) :=
    leaves_get.bind fun _ ↦ adds_pure ⟨⟨_, rfl⟩, rfl⟩
  exact hfacts.bind fun _ ↦ leaves_get.bind fun _ ↦ adds_pure ⟨⟨_, rfl⟩, rfl⟩

/-- What an answer to the question leaves: an approval, or a result withheld. -/
def Answered (r : Except Ended (Approval × F × PyStr × PyStr)) (new : History F) : Prop :=
  match r with
  | .ok passed => passed.1 = .approved ∧ ∀ e ∈ new, Working [] e
  | .error ended => ∀ way text, ended = .text way text → way = .withheld ∧
      ∃ rest description, new = rest ++ [.status (py "approval") description true] ∧ ∀ e ∈ rest, Working [] e

omit [PySeconds F] [Unicode] [Casing] in
theorem Answered.prepend {r : Except Ended (Approval × F × PyStr × PyStr)} {first rest : History F}
    (hfirst : ∀ e ∈ first, Working [] e) (h : Answered r rest) : Answered r (first ++ rest) := by
  cases r with
  | ok passed => exact ⟨h.1, fun e he ↦ (List.mem_append.mp he).elim (hfirst e) (h.2 e)⟩
  | error ended =>
    intro way text hend
    obtain ⟨hway, rest, description, rfl, hrest⟩ := h way text hend
    refine ⟨hway, first ++ rest, description, (List.append_assoc _ _ _).symm, fun e he ↦ ?_⟩
    exact (List.mem_append.mp he).elim (hfirst e) (hrest e)

theorem adds_withhold (r : Finished F) (approval : Approval) (waited : F) (reason description : PyStr) :
    Adds World.events (withhold env r approval waited reason description) Answered := by
  refine (leaves_emit _).adds_bind fun _ ↦ (leaves_provenanceText env r _ _ _ _ _ _).adds_bind fun record ↦
    adds_throw ?_
  rintro way text ⟨⟩
  exact ⟨rfl, [], description, rfl, by simp⟩

theorem adds_decided (r : Finished F) (waited : F) (decision : PyStr) :
    Adds World.events (decided env r waited decision) Answered := by
  have haudit (decision : PyStr) (fields : List (PyStr × Json F)) :
      Leaves World.events [.audit (py "approval") ((py "decision", .str decision) :: fields)]
        (auditDecision decision fields) := leaves_emit _
  rw [decided]
  split
  · refine (haudit _ _).adds_bind fun _ ↦ leaves_history.adds_bind fun _ ↦ (leaves_addTrace _).adds_bind fun _ ↦ ?_
    exact adds_pure ⟨rfl, by simp [Working]⟩
  · refine (haudit _ _).adds_bind fun _ ↦ (leaves_addTrace _).adds_bind fun _ ↦ (adds_withhold env r _ _ _ _).mono ?_
    exact fun _ _ ↦ Answered.prepend (by simp [Working])

/-- What a gate leaves that puts its question. -/
def Asking (rest : History F → Prop) (new : History F) : Prop :=
  ∃ description question after, new = .status (py "approval") description false :: .ask question :: after ∧
    rest after

theorem adds_answered (r : Finished F) (before waited : _) : Adds World.events
    (match env.reviewer before with
      | .error why => do
        auditDecision (py "not obtained") [(py "reason", .str (why.take 120))]
        addTrace (py "**HUMAN** approval was not obtained (" ++ why ++ py "); the result was not released.")
        withhold env r .noReviewer waited
          (py "No reviewer answered the sign-off, so 4CE has not released this result. " ++
            py "Nothing was approved or rejected; ask again to review it.\n\n")
          (py "No reviewer answered")
      | response => decided env r waited response.decision) Answered := by
  split
  · exact (leaves_emit _).adds_bind fun _ ↦ (leaves_addTrace _).adds_bind fun _ ↦
      (adds_withhold env r _ _ _ _).mono fun _ _ ↦ Answered.prepend (by simp [Working])
  · exact adds_decided env r waited _

theorem adds_askReviewer (r : Finished F) :
    Adds World.events (askReviewer env r) fun result ↦ Asking (Answered result) := by
  refine (leaves_emit _).adds_bind fun _ ↦ leaves_history.adds_bind fun _ ↦ (leaves_emit _).adds_bind fun _ ↦
    leaves_history.adds_bind fun before ↦ leaves_history.adds_bind fun _ ↦ (adds_answered env r before _).mono ?_
  exact fun _ rest h ↦ ⟨_, _, rest, rfl, h⟩

/-- A gate that puts its question is passed by an approval; one that does not lets the run through. -/
def Gate (asks required : Bool) (r : Except Ended (Approval × F × PyStr × PyStr)) (new : History F) : Prop :=
  if asks then Asking (Answered r) new
  else (∃ passed, r = .ok passed ∧ passed.1 = if required then .noSession else .notRequired) ∧
    ∀ e ∈ new, Working [] e

theorem adds_signOff (r : Finished F) :
    Adds World.events (signOff env r)
      (Gate (env.valves.requireApproval && r.gathered.intake.request.interactive) env.valves.requireApproval) := by
  rw [signOff]
  cases hrequired : env.valves.requireApproval with
  | false => exact adds_pure ⟨⟨_, rfl, rfl⟩, by simp⟩
  | true =>
    cases hinteractive : r.gathered.intake.request.interactive with
    | false =>
      exact (leaves_emit _).adds_bind fun _ ↦ (leaves_addTrace _).adds_bind fun _ ↦
        adds_pure ⟨⟨_, rfl, rfl⟩, by simp [Working]⟩
    | true => exact adds_askReviewer env r

/-! ## The release -/

omit [PySeconds F] [Unicode] [Casing] in
theorem announces_saveArtifacts (title text : PyStr) :
    Announces stages (fun _ ↦ True) (saveArtifacts env title text) := by
  refine (only_mapM (W := fun _ ↦ True) (fun file ↦ ?_) _).bind fun lines _ ↦ only_pure trivial
  refine (announces_useTool env _).bind fun written _ ↦ ?_
  split
  · exact (only_useOnce _).bind fun _ _ ↦ (only_addTrace _).bind fun _ _ ↦ only_pure trivial
  · exact only_pure trivial

omit [Unicode] [Casing] in
theorem announces_facts (r : Finished F) (waited : F) :
    Announces stages (fun _ ↦ True) (facts env r waited) :=
  (only_get fun _ ↦ trivial).bind fun _ _ ↦ only_pure trivial

omit [Unicode] [Casing] in
theorem announces_fileRecord (r : Finished F) (approval : Approval) (waited : F) (stamp fingerprint : PyStr) :
    Announces stages (fun _ ↦ True) (fileRecord env r approval waited stamp fingerprint) := by
  refine (announces_facts env r waited).bind fun known _ ↦ only_history.bind fun _ _ ↦ ?_
  extract_lets
  split
  · exact only_pure trivial
  · exact only_pure trivial

omit [Casing] in
theorem announces_makeOffice (r : Released F) (format : Office) :
    Announces stages (fun _ ↦ True) (makeOffice env r format) := by
  refine (only_status (by simp [stages]) _).bind fun _ _ ↦ (announces_useTool env _).bind fun made _ ↦ ?_
  split
  · exact (only_useAgain _).bind fun _ _ ↦ (only_addTrace _).bind fun _ _ ↦ only_pure trivial
  · exact only_pure trivial

omit [Casing] in
theorem announces_writeWorkbook (r : Released F) : Announces stages (fun _ ↦ True) (writeWorkbook env r) := by
  rw [writeWorkbook]
  split
  · exact only_pure trivial
  split
  · exact only_pure trivial
  refine (only_status (by simp [stages]) _).bind fun _ _ ↦ (announces_useTool env _).bind fun made _ ↦ ?_
  split
  · exact (only_useAgain _).bind fun _ _ ↦ (only_addTrace _).bind fun _ _ ↦ only_pure trivial
  split
  · exact only_pure trivial
  · exact (only_addTrace _).bind fun _ _ ↦ only_pure trivial

theorem announces_makeWord (r : Released F) (answer : PyStr) :
    Announces stages (fun _ ↦ True) (makeWord env r answer) := by
  rw [makeWord]
  split
  · exact only_pure trivial
  refine (only_status (by simp [stages]) _).bind fun _ _ ↦ (announces_useTool env _).bind fun made _ ↦ ?_
  split
  · exact (only_useAgain _).bind fun _ _ ↦ (only_addTrace _).bind fun _ _ ↦ only_pure trivial
  · exact only_pure trivial

theorem announces_releaseFiles (r : Finished F) (approval : Approval) (waited : F) (stamp : PyStr × PyStr)
    (fingerprint : PyStr) :
    Announces stages (fun _ ↦ True) (releaseFiles env r approval waited stamp fingerprint) := by
  rw [releaseFiles]
  extract_lets text c chat
  split
  · exact only_pure trivial
  refine only_ite_bind (fun _ ↦ only_pure trivial) (fun _ ↦ announces_saveArtifacts env _ _) fun saved _ ↦ ?_
  refine only_ite_bind (fun _ ↦ only_pure trivial) (fun _ ↦ announces_fileRecord env _ _ _ _ _)
    fun record _ ↦ ?_
  refine Only.bind (only_mapM (announces_makeOffice env _) _) fun cards _ ↦ ?_
  refine (announces_writeWorkbook env _).bind fun workbook _ ↦ (announces_makeWord env _ _).bind fun word _ ↦ ?_
  exact (only_get fun _ ↦ trivial).bind fun _ _ ↦ (only_audit _ _).bind fun _ _ ↦ only_pure trivial

/-- The status a released run closes with. -/
def completed : Event F := .status (py "done") (py "Complete") true

/-- A release closes the run, and ends it with a text. -/
def Releases (r : Except Ended Ended) (new : History F) : Prop :=
  match r with
  | .ok ended => (∃ text, ended = .text .released text) ∧
      ∃ before, new = before ++ [completed] ∧ ∀ e ∈ before, Working stages e
  | .error ended => NoText ended

theorem adds_release (r : Finished F) (approval : Approval) (waited : F) (stamp : PyStr × PyStr) :
    Adds World.events (release env r approval waited stamp) Releases := by
  have hfingerprint : Announces stages (fun _ ↦ True) (fingerprintOf env approval r.last.deliverable) := by
    rw [fingerprintOf]
    split
    · exact only_digest env (fun _ h ↦ h) _
    · exact only_pure trivial
  refine hfingerprint.adds_bind (fun _ _ h ↦ h) fun fingerprint first hfirst _ ↦ ?_
  refine (announces_releaseFiles env r.cited approval waited stamp fingerprint).adds_bind (fun _ _ h ↦ h)
    fun answer files hfiles _ ↦ (leaves_emit _).adds_bind fun _ ↦ ?_
  have hreleases (text : PyStr) : Releases (.ok (.text .released text))
      (first ++ (files ++ [completed (F := F)])) :=
    ⟨⟨text, rfl⟩, first ++ files, (List.append_assoc _ _ _).symm,
      fun e he ↦ (List.mem_append.mp he).elim (hfirst e) (hfiles e)⟩
  split
  · exact adds_pure (hreleases _)
  · refine leaves_history.adds_bind fun trail ↦ (leaves_provenanceText env _ _ _ _ _ _ _).adds_bind fun record ↦ ?_
    exact adds_pure (hreleases _)

/-! ## Small talk -/

/-- A reply as it is shown: no failure, and a note on a line of its own. -/
def Shows (text : PyStr) : Prop :=
  ∃ reply note, text = reply ++ note ∧ (Stripped reply ∧ startsWith ERR reply = false) ∧
    (note = [] ∨ ∃ rest, note = py "\n\n*Direct" ++ rest)

/-- What small talk leaves, answered or failed. -/
def SmallTalk (way : Way) (text : PyStr) (new : History F) : Prop :=
  ∃ description middle action closing, new = .status (py "chat") description false ::
      (middle ++ [.status action closing true]) ∧ (∀ e ∈ middle, Working [] e) ∧
    (way = .direct ∧ action = py "chat" ∧ Shows text ∨ way = .failed ∧ action = py "error")

omit [Unicode] [Casing] in
theorem adds_directReply (c : Intake F) : Adds World.events (directReply env c) fun r new ↦
    ∃ ended, r = .error ended ∧ ∀ way text, ended = .text way text → SmallTalk way text new := by
  have hcall (role : Role) (model instruction : PyStr) :
      Announces [] (fun s ↦ Stripped s.text ∨ startsWith ERR s.text = true)
        (agentCall env role model instruction) := announces_agentCall env role model instruction
  refine (leaves_emit _).adds_bind fun _ ↦ (hcall _ _ _).adds_bind (fun ended _ h ↦ ?_)
    fun reply middle hmiddle hreply ↦ ?_
  · exact ⟨ended, rfl, fun way text hend ↦ absurd hend (h way text)⟩
  extract_lets note answer
  split_ifs with hfailed
  · refine (leaves_emit _).adds_bind fun _ ↦ adds_throw ⟨_, rfl, ?_⟩
    rintro way text ⟨⟩
    exact ⟨_, middle, _, _, rfl, hmiddle, Or.inr ⟨rfl, rfl⟩⟩
  · refine (leaves_emit _).adds_bind fun _ ↦ (leaves_addStep _).adds_bind fun _ ↦
      adds_throw ⟨_, rfl, ?_⟩
    · rintro way text ⟨⟩
      refine ⟨py "Answering directly", middle, _, py "Answered directly", by simp, hmiddle, Or.inl ⟨rfl, rfl, reply.text, _, rfl, ⟨?_, ?_⟩, ?_⟩⟩
      · exact hreply.resolve_right hfailed
      · exact Bool.eq_false_iff.mpr hfailed
      · split_ifs
        · exact Or.inr ⟨_, rfl⟩
        · exact Or.inl rfl

/-! ## Up to the gate -/

/-- `_run_chain` up to its gate. -/
def toGate : Chain F (Finished F) := do
  let c ← intake env
  if c.taskType = .chat && !env.valves.orchestrateSmallTalk then directReply env c
  let g ← gather env c
  let result ← drafting env g
  auditVerdict env (finished env g result)
  return finished env g result

theorem runChain_eq :
    runChain env = toGate env >>= fun r ↦ signOff env r >>= fun passed ↦
      release env r passed.1 passed.2.1 passed.2.2 := by
  rw [runChain, toGate]
  simp only [bind_assoc]
  refine bind_congr fun c ↦ ?_
  split
  · simp only [agentChain, bind_assoc, pure_bind]
  · simp only [agentChain, bind_assoc, pure_bind]

/-- What a failed run leaves. -/
def Failing (way : Way) (new : History F) : Prop :=
  way = .failed ∧ ∃ before description, new = before ++ [.status (py "error") description true] ∧
    ∀ e ∈ before, Working stages e

/-- What a run leaves that ends before its gate. -/
def EndsEarly (way : Way) (text : PyStr) (new : History F) : Prop :=
  Early way new ∨
    (∃ plan talk, new = plan ++ talk ∧ (∀ e ∈ plan, Working planning e) ∧ SmallTalk way text talk) ∨
    Failing way new

/-- A finished loop: the revision of its verdict is the one a second attempt made, if any. -/
def Looped (r : Finished F) : Prop :=
  ∃ g result, r = finished env g result ∧ result.1.verdict.revision = none

/-- How a run comes to its gate, and what it leaves until then. -/
def AtGate (res : Except Ended (Finished F)) (new : History F) : Prop :=
  match res with
  | .ok r => (∀ e ∈ new, Working stages e) ∧ Looped env r
  | .error ended => ∀ way text, ended = .text way text → EndsEarly way text new

omit [Unicode] [Casing] [PySeconds F] in
theorem atGate_of_mayFail {res : Except Ended (Finished F)} {new : History F}
    (h : MayFail (Looped env) res new) : AtGate env res new := by
  cases res with
  | ok r => exact h
  | error ended => exact fun way text hend ↦ Or.inr (Or.inr (h way text hend))

theorem adds_toGate : Adds World.events (toGate env) (AtGate env) := by
  rw [toGate]
  refine (adds_intake env).bind (fun ended new h way text hend ↦ Or.inl (h.2 way text (congrArg _ hend)))
    fun c plan hplan ↦ ?_
  have hplanning : ∀ e ∈ plan, Working planning e := hplan.1 c rfl
  have hchain : Adds World.events (do
      let g ← gather env c
      let result ← drafting env g
      auditVerdict env (finished env g result)
      return finished env g result) fun res rest ↦ AtGate env res (plan ++ rest) := by
    refine Adds.mono (Q := MayFail (Looped env)) ?_ fun res rest h ↦ atGate_of_mayFail env (h.prepend ?_)
    · refine mayFail_bind (mayFail_of_announces (announces_gather env c)) fun g _ ↦
        mayFail_bind (adds_draftLoop env g _ _ _ _) fun result hresult ↦
          mayFail_bind (mayFail_of_announces (announces_auditVerdict env _)) fun _ _ ↦ ?_
      exact mayFail_of_announces (only_pure ⟨g, result, rfl, hresult⟩)
    · exact fun e he ↦ Working.mono planning_subset_stages e (hplanning e he)
  split
  · refine (adds_directReply env c).bind (fun ended talk h way text hend ↦ ?_) fun a talk h ↦ ?_
    · obtain ⟨ended', hended', hsmall⟩ := h
      cases hended'
      exact Or.inr (Or.inl ⟨plan, talk, rfl, hplanning, hsmall way text hend⟩)
    · obtain ⟨ended', hended', -⟩ := h
      cases hended'
  · exact hchain

/-! ## From the gate on -/

/-- How a run goes on from its gate: the gate ends it, or it is released. -/
def FromGate (r : Finished F) (v : World F) (way : Way) (text : PyStr) (w : World F) : Prop :=
  (signOff env r).run.run v = (.error (.text way text), w) ∨
    ∃ approval waited stamp v', (signOff env r).run.run v = (.ok (approval, waited, stamp), v') ∧
      (release env r approval waited stamp).run.run v' = (.ok (.text way text), w)

/-- A run that ends with a text ends before its gate or goes on from it. -/
theorem run_ends {way : Way} {text : PyStr} {w : World F} (h : run env = (.text way text, w)) :
    EndsEarly way text w.events ∨ ∃ r v, (toGate env).run.run {} = (.ok r, v) ∧
      (∀ e ∈ v.events, Working stages e) ∧ Looped env r ∧ FromGate env r v way text w := by
  obtain ⟨new, hnew, hgate⟩ := adds_toGate env {}
  rw [run, runChain_eq, run_bind] at h
  rcases hrun : (toGate env).run.run {} with ⟨e | r, v⟩
  · rw [hrun] at h hnew hgate
    cases h
    rw [show w.events = new from hnew]
    exact Or.inl (hgate way text rfl)
  rw [hrun] at h hnew hgate
  rw [show new = v.events from hnew.symm] at hgate
  refine Or.inr ⟨r, v, rfl, hgate.1, hgate.2, ?_⟩
  dsimp only at h
  rw [run_bind] at h
  rcases hsign : (signOff env r).run.run v with ⟨e | ⟨approval, waited, stamp⟩, v'⟩
  · rw [hsign] at h
    cases h
    exact Or.inl hsign
  rw [hsign] at h
  dsimp only at h
  obtain ⟨closing, hclosing, hreleases⟩ := adds_release env r approval waited stamp v'
  rcases hrelease : (release env r approval waited stamp).run.run v' with ⟨e | e, v''⟩
  · rw [hrelease] at h hreleases
    cases h
    exact absurd rfl (hreleases way text)
  · rw [hrelease] at h
    cases h
    exact Or.inr ⟨approval, waited, stamp, v', hsign, hrelease⟩

/-- What a run leaves that its gate ends. -/
def Withholding (new : History F) : Prop :=
  ∃ before gate, new = before ++ gate ∧ (∀ e ∈ before, Working stages e) ∧
    Asking (fun after ↦ ∃ rest description, after = rest ++ [.status (py "approval") description true] ∧
      ∀ e ∈ rest, Working [] e) gate

theorem signOff_withholds {r : Finished F} {v w : World F} {way : Way} {text : PyStr}
    (hv : ∀ e ∈ v.events, Working stages e) (h : (signOff env r).run.run v = (.error (.text way text), w)) :
    way = .withheld ∧ Withholding w.events := by
  obtain ⟨gate, hevents, hgate⟩ := adds_signOff env r v
  rw [h] at hevents hgate
  rw [Gate] at hgate
  split at hgate
  · obtain ⟨description, question, after, rfl, hanswered⟩ := hgate
    obtain ⟨hway, hrest⟩ := hanswered way text rfl
    exact ⟨hway, v.events, _, hevents, hv, description, question, after, rfl, hrest⟩
  · obtain ⟨⟨passed, hpassed, -⟩, -⟩ := hgate
    cases hpassed

/-- What a released run leaves, whether its gate put the question or not. -/
def Releasing (asked : Bool) (before new : History F) : Prop :=
  ∃ gate after, new = before ++ gate ++ after ++ [completed] ∧
    (∀ e ∈ after, Working stages e) ∧
    if asked then Asking (fun rest ↦ ∀ e ∈ rest, Working [] e) gate else ∀ e ∈ gate, Working [] e

/-- How a run is approved that comes past its gate. -/
def approvalOf (required asked : Bool) : Approval :=
  if asked then .approved else if required then .noSession else .notRequired

theorem release_releases {r : Finished F} {v v' w : World F} {approval : Approval} {waited : F}
    {stamp : PyStr × PyStr} {way : Way} {text : PyStr}
    (hsign : (signOff env r).run.run v = (.ok (approval, waited, stamp), v'))
    (hrelease : (release env r approval waited stamp).run.run v' = (.ok (.text way text), w)) :
    way = .released ∧ ∃ asked, approval = approvalOf env.valves.requireApproval asked ∧
      Releasing asked v.events w.events := by
  obtain ⟨gate, hevents, hgate⟩ := adds_signOff env r v
  rw [hsign] at hevents hgate
  obtain ⟨closing, hclosing, hreleases⟩ := adds_release env r approval waited stamp v'
  rw [hrelease] at hclosing hreleases
  obtain ⟨⟨text', htext⟩, after, rfl, hafter⟩ := hreleases
  cases htext
  have hw : w.events = v.events ++ gate ++ after ++ [completed] := by
    calc w.events = v'.events ++ (after ++ [completed]) := hclosing
      _ = (v.events ++ gate) ++ (after ++ [completed]) := by
          rw [show v'.events = v.events ++ gate from hevents]
      _ = v.events ++ gate ++ after ++ [completed] :=
          (List.append_assoc _ _ _).symm
  rw [Gate] at hgate
  split at hgate
  · obtain ⟨description, question, rest, rfl, hanswered⟩ := hgate
    exact ⟨rfl, true, hanswered.1, _, after, hw, hafter, description, question, rest, rfl, hanswered.2⟩
  · obtain ⟨⟨passed, hpassed, happroval⟩, hgate⟩ := hgate
    cases hpassed
    exact ⟨rfl, false, happroval, gate, after, hw, hafter, hgate⟩

end

end FourCE.Orchestrator

import FourCE.Orchestrator.Statuses
import FourCE.Sidebar.Faithful

/-!
# How a run ended, as the map shows it

`runSummary` of the overview folds over the statuses of a message.  It and the chat list agree on a
finished run just where the run's first tool was announced behind its gate, or nobody was asked, and
the answer says nothing of its own about an approval.
-/

namespace FourCE.Sidebar

open FourCE.Python FourCE.Orchestrator

/-! ## The summary -/

inductive Stage
  | tony
  | friday
  | jarvis
  | ultron
  | you
  deriving DecidableEq, Repr

/-- `STAGES`. -/
def Stage.all : List Stage := [.tony, .friday, .jarvis, .ultron, .you]

def Stage.name : Stage → PyStr
  | .tony => py "TONY"
  | .friday => py "FRIDAY"
  | .jarvis => py "JARVIS"
  | .ultron => py "ULTRON"
  | .you => py "YOU"

/-- `STAGE_OF`. -/
def stageOf : List (PyStr × Stage) :=
  [(py "tony", .tony), (py "tony_plan", .tony), (py "router", .tony), (py "tony_replan", .tony),
    (py "friday", .friday), (py "jarvis", .jarvis), (py "ultron", .ultron), (py "approval", .you)]

/-- `STAGE_OF[action]`. -/
def stage (action : PyStr) : Option Stage := (stageOf.find? fun p ↦ p.1 = action).map Prod.snd

/-- The outcomes a card shows. -/
inductive Shade
  | direct
  | released
  | withheld
  | complete
  | reviewing
  | working
  | stopped
  | failed
  | interrupted
  deriving DecidableEq, Repr

/-- `LABELS`. -/
def Shade.label : Shade → PyStr
  | .direct => py "Direct reply"
  | .released => py "Released"
  | .withheld => py "Withheld"
  | .complete => py "Complete"
  | .reviewing => py "Your review"
  | .working => py "Working"
  | .stopped => py "Stopped"
  | .failed => py "Failed"
  | .interrupted => py "Interrupted"

/-- What the loop of `runSummary` knows. -/
structure Progress where
  reached : List Stage := []
  direct : Bool := false
  outcome : Option Shade := none
  lastStage : Option Stage := none
  deriving DecidableEq, Repr

/-- A status of a stage. -/
def Progress.reach (p : Progress) (s : Stage) (done : Bool) : Progress :=
  { p with
    reached := if s ∈ p.reached then p.reached else p.reached ++ [s]
    lastStage := some s
    outcome := if s = .you && done then some .withheld else p.outcome }

/-- One turn of the loop of `runSummary`. -/
def Progress.step (p : Progress) (status : Status) : Progress :=
  match status.action.bind stage with
  | some s => p.reach s (status.done = some true)
  | none =>
    if status.action = some (py "chat") then { p with direct := true }
    else if status.action = some (py "stopped") then { p with outcome := some .stopped }
    else if status.action = some (py "error") then { p with outcome := some .failed }
    else if (status.action = some (py "done") || status.action = some (py "tool")) && p.outcome.isNone then
      { p with outcome := some (if .you ∈ p.reached then .released else .complete) }
    else p

/-- What a card says of one stage. -/
structure StageShown where
  name : PyStr
  reached : Bool
  active : Bool
  deriving DecidableEq, Repr

structure Summary where
  chain : Bool
  live : Bool
  outcome : Shade
  label : PyStr
  stages : List StageShown
  deriving DecidableEq, Repr

/-- The outcome of a message, live or not. -/
def Progress.shade (p : Progress) (live : Bool) : Shade :=
  let outcome := if p.direct then some (if p.outcome = some .failed then .failed else .direct) else p.outcome
  outcome.getD (if live then if p.lastStage = some .you then .reviewing else .working else .interrupted)

/-- `runSummary`. -/
def runSummary (message : Message) : Option Summary :=
  if message.statusHistory.isEmpty then none
  else
    let p := message.statusHistory.foldl Progress.step {}
    let live := !message.done
    let outcome := p.shade live
    some {
      chain := !p.direct && decide (1 < p.reached.length)
      live := live && (outcome = .working || outcome = .reviewing)
      outcome := outcome
      label := outcome.label
      stages := Stage.all.map fun s ↦ ⟨s.name, s ∈ p.reached, live && p.lastStage = some s⟩ }

/-- The map and the chat list agree on how a run ended. -/
structure Agree (onMap : Option Shade) (inList : Outcome) : Prop where
  released : onMap = some .released ↔ inList = .released
  withheld : onMap = some .withheld ↔ inList = .withheld
  direct : onMap = some .direct ↔ inList = .direct
  done : onMap = some .complete ↔ inList = .done
  stopped : onMap ∈ [some Shade.failed, some .stopped, some .interrupted] ↔ inList = .stopped

/-! ## The statuses of a run -/

section

variable {F : Type}

/-- The entry of `statusHistory` an event leaves, if it is a status. -/
def statusOf : Event F → Option Status
  | .status action _ done => some ⟨some action, some done⟩
  | .source _ | .audit _ _ | .agent _ _ _ | .tool _ | .ask _ => none

/-- The `statusHistory` of a run's message. -/
def statuses (events : History F) : List Status := events.filterMap statusOf

/-- What the outcome is made of: whether the reply is a direct one, whether a reviewer was asked, and
the outcome so far. -/
structure View where
  direct : Bool
  asked : Bool
  outcome : Option Shade
  deriving DecidableEq

def Progress.view (p : Progress) : View := ⟨p.direct, .you ∈ p.reached, p.outcome⟩

/-- The outcome of a run that was asked about or not, when its first tool is announced or it is done. -/
def View.settle (v : View) : View :=
  { v with outcome := v.outcome.or (some (if v.asked then .released else .complete)) }

/-! ## One status -/

theorem stage_of_stages : ∀ action ∈ stages, action ≠ py "tool" → (stage action).any (· ≠ .you) = true := by
  decide

theorem view_step_stage (p : Progress) {action : PyStr} (h : action ∈ stages) (htool : action ≠ py "tool") :
    (p.step ⟨some action, some false⟩).view = p.view := by
  obtain ⟨s, hstage, hs⟩ := (Option.any_eq_true _ _).mp (stage_of_stages action h htool)
  have hs : s ≠ .you := of_decide_eq_true hs
  have hreached : Stage.you ∈ (if s ∈ p.reached then p.reached else p.reached ++ [s]) ↔ .you ∈ p.reached := by
    split_ifs
    · rfl
    · simp [hs.symm]
  rw [Progress.step, Option.bind_some, hstage]
  simp [Progress.reach, Progress.view, hreached]

theorem view_step_settle (p : Progress) {action : PyStr} (h : action = py "tool" ∨ action = py "done")
    (done : Bool) : (p.step ⟨some action, some done⟩).view = p.view.settle := by
  have haction : stage action = none ∧ action ≠ py "chat" ∧ action ≠ py "stopped" ∧ action ≠ py "error" := by
    rcases h with rfl | rfl <;> decide
  obtain ⟨hstage, hchat, hstopped, herror⟩ := haction
  rw [Progress.step, Option.bind_some, hstage]
  cases houtcome : p.outcome <;>
    simp [hchat, hstopped, herror, h.symm, houtcome, Progress.view, View.settle]

theorem view_step_approval (p : Progress) (done : Bool) :
    (p.step ⟨some (py "approval"), some done⟩).view =
      { p.view with asked := true, outcome := if done then some .withheld else p.outcome } := by
  have hstage : stage (py "approval") = some .you := by decide
  have hreached : Stage.you ∈ (if .you ∈ p.reached then p.reached else p.reached ++ [.you]) := by
    split_ifs with h
    · exact h
    · simp
  rw [Progress.step, Option.bind_some, hstage]
  simp [Progress.reach, Progress.view, hreached]

theorem view_step_chat (p : Progress) (done : Bool) :
    (p.step ⟨some (py "chat"), some done⟩).view = { p.view with direct := true } := by
  have hstage : stage (py "chat") = none := by decide
  rw [Progress.step, Option.bind_some, hstage]
  simp [Progress.view]

theorem view_step_error (p : Progress) (done : Bool) :
    (p.step ⟨some (py "error"), some done⟩).view = { p.view with outcome := some .failed } := by
  have haction : stage (py "error") = none ∧ py "error" ≠ py "chat" ∧ py "error" ≠ py "stopped" := by
    decide
  rw [Progress.step, Option.bind_some, haction.1]
  simp [haction.2, Progress.view]

/-! ## The statuses of a part -/

theorem statuses_append (a b : History F) : statuses (a ++ b) = statuses a ++ statuses b :=
  List.filterMap_append

/-- A tool was announced. -/
def announcesTool (events : History F) : Bool :=
  (statuses events).any fun s ↦ s.action = some (py "tool")

/-- What the map knows after these events. -/
def progress (p : Progress) (events : History F) : Progress := (statuses events).foldl Progress.step p

theorem progress_append (p : Progress) (a b : History F) :
    progress p (a ++ b) = progress (progress p a) b := by
  rw [progress, statuses_append, List.foldl_append]
  rfl

theorem settle_settle (v : View) : v.settle.settle = v.settle := by
  cases h : v.outcome <;> simp [View.settle, h]

/-- Parts at work settle the outcome with their first tool, and else leave what is known. -/
theorem view_progress_working {new : History F} (h : ∀ e ∈ new, Working stages e) (p : Progress) :
    (progress p new).view = if announcesTool new then p.view.settle else p.view := by
  induction new generalizing p with
  | nil => rfl
  | cons e new ih =>
    have hnew : ∀ x ∈ new, Working stages x := fun x hx ↦ h x (List.mem_cons_of_mem e hx)
    have he := h e List.mem_cons_self
    cases e with
    | status action description done =>
      obtain ⟨haction, rfl⟩ := he
      have hstep : progress p (.status action description false :: new) =
          progress (p.step ⟨some action, some false⟩) new := rfl
      have hany : announcesTool (.status action description false :: new) =
          (decide (action = py "tool") || announcesTool new) := by
        simp [announcesTool, statuses, statusOf]
      rw [hstep, ih hnew, hany]
      by_cases htool : action = py "tool"
      · rw [view_step_settle p (Or.inl htool), settle_settle]
        simp [htool]
      · rw [view_step_stage p haction htool]
        simp [htool]
    | ask question => exact absurd he id
    | source | audit | agent | tool => exact ih hnew p

/-- Parts that announce nothing leave what is known. -/
theorem view_progress_silent {new : History F} (h : ∀ e ∈ new, Working [] e) (p : Progress) :
    (progress p new).view = p.view := by
  rw [view_progress_working (fun e he ↦ Working.mono (by simp) e (h e he))]
  have hnone : statuses new = [] := by
    rw [statuses, List.filterMap_eq_nil_iff]
    intro e he
    cases e with
    | status => exact absurd (h _ he).1 List.not_mem_nil
    | source | audit | agent | tool | ask => rfl
  simp [announcesTool, hnone]

theorem progress_cons (p : Progress) (action description : PyStr) (done : Bool) (events : History F) :
    progress p (.status action description done :: events) = progress (p.step ⟨some action, some done⟩) events :=
  rfl

/-- The question at a gate. -/
theorem view_progress_asking {rest : History F → Prop} {gate : History F} (h : Asking rest gate) (p : Progress) :
    ∃ after q, rest after ∧ q.view = { p.view with asked := true } ∧ progress p gate = progress q after := by
  obtain ⟨description, question, after, rfl, hafter⟩ := h
  exact ⟨after, _, hafter, view_step_approval p false, rfl⟩

/-! ## The message of a run -/

/-- A chat whose latest answer on the branch in view is the finished message of a run: the text it
returned, and every status it emitted. -/
structure Saved (text : PyStr) (events : History F) where
  chat : Chat
  answer : Message
  latest : chat.latest = some answer
  model : startsWith (py "ace_orchestrator") (answer.model.getD []) = true
  done : answer.done = true
  stored : answer.content = some text
  emitted : answer.statusHistory = statuses events

variable {text : PyStr} {events : History F}

/-- The outcome on the card of a run. -/
def Saved.onMap (s : Saved text events) : Option Shade := (runSummary s.answer).map Summary.outcome

/-- The outcome of a finished run. -/
def View.shade (v : View) : Shade :=
  (if v.direct then some (if v.outcome = some .failed then .failed else .direct) else v.outcome).getD .interrupted

theorem Saved.onMap_eq (s : Saved text events) :
    s.onMap = if (statuses events).isEmpty then none else some (progress {} events).view.shade := by
  rw [onMap, runSummary, s.emitted, s.done]
  split_ifs <;> rfl

/-- An action the run announced. -/
def acted (events : History F) (action : PyStr) : Bool := (statuses events).any fun s ↦ s.action = some action

/-- The run's last status was left open. -/
def cutOff (events : History F) : Bool := (statuses events).getLast?.any fun s ↦ s.done = some false

section

variable [Unicode] [Casing] {G : Type} [Runtime G]

theorem Saved.inList_eq (s : Saved text events) : fourceOutcome G (some s.chat) =
    if startsWith ERR (lstrip text) || acted events (py "error") || acted events (py "stopped") then .stopped
    else if cutOff events then .stopped
    else if acted events (py "chat") then .direct
    else contentOutcome G text := by
  simp only [fourceOutcome, Option.bind_some, s.latest, Message.outcome, s.stored, s.model, s.done, Message.acted,
    Message.cutOff, s.emitted, Option.getD_some, Bool.not_true, Bool.false_eq_true, if_false]
  rfl

end

theorem acted_append (a b : History F) (action : PyStr) :
    acted (a ++ b) action = (acted a action || acted b action) := by
  rw [acted, statuses_append, List.any_append]
  rfl

theorem acted_working {actions : List PyStr} {action : PyStr} (haction : action ∉ actions) {new : History F}
    (h : ∀ e ∈ new, Working actions e) : acted new action = false := by
  rw [acted, List.any_eq_false]
  intro s hs
  obtain ⟨e, he, hstatus⟩ := List.mem_filterMap.mp hs
  cases e with
  | status a description done =>
    cases hstatus
    rw [decide_eq_true_eq]
    rintro ⟨⟩
    exact haction (h _ he).1
  | source | audit | agent | tool | ask => cases hstatus

theorem cutOff_of_closed (before : History F) (action description : PyStr) :
    cutOff (before ++ [.status action description true]) = false := by
  rw [cutOff, statuses_append]
  simp [statuses, statusOf]

theorem cutOff_working {actions : List PyStr} {new : History F} (h : ∀ e ∈ new, Working actions e)
    (hstatus : ∃ action description, .status action description false ∈ new) : cutOff new = true := by
  have hne : statuses new ≠ [] := by
    obtain ⟨action, description, hmem⟩ := hstatus
    exact List.ne_nil_of_mem (List.mem_filterMap.mpr ⟨_, hmem, rfl⟩)
  rw [cutOff, List.getLast?_eq_some_getLast hne, Option.any_some]
  obtain ⟨e, he, hlast⟩ := List.mem_filterMap.mp (List.getLast_mem hne)
  cases e with
  | status a description done =>
    obtain ⟨-, rfl⟩ := h _ he
    rw [← Option.some.inj hlast]
    rfl
  | source | audit | agent | tool | ask => cases hlast

/-! ## Each way a run ends -/

section

variable [Unicode] [Casing] {G : Type} [Runtime G]

theorem contentOutcome_ne_none (content : PyStr) : contentOutcome G content ≠ .none := by
  rw [contentOutcome]
  split_ifs <;> simp

/-- A finished answer of 4CE's has an outcome in the chat list. -/
theorem Saved.inList_ne_none (s : Saved text events) : fourceOutcome G (some s.chat) ≠ .none := by
  rw [s.inList_eq]
  split_ifs
  · simp
  · simp
  · simp
  · exact contentOutcome_ne_none text

omit [Unicode] [Casing] in
theorem agree_iff {shade : Shade} {outcome : Outcome} :
    Agree (some shade) outcome ↔ outcome = match shade with
      | .released => .released
      | .withheld => .withheld
      | .direct => .direct
      | .complete => .done
      | .failed | .stopped | .interrupted => .stopped
      | .reviewing | .working => .none := by
  constructor
  · rintro ⟨h1, h2, h3, h4, h5⟩
    cases shade <;> cases outcome <;> simp_all
  · rintro rfl
    cases shade <;> constructor <;> simp

theorem not_agree_none (s : Saved text events) : ¬ Agree none (fourceOutcome G (some s.chat)) := by
  rintro ⟨h1, h2, h3, h4, h5⟩
  have hne := s.inList_ne_none (G := G)
  cases h : fourceOutcome G (some s.chat) <;> simp_all

theorem Saved.inList_stopped (s : Saved text events)
    (h : acted events (py "error") = true ∨ cutOff events = true) : fourceOutcome G (some s.chat) = .stopped := by
  rw [s.inList_eq]
  rcases h with h | h
  · simp [h]
  · simp [h]

theorem Saved.inList_closed (s : Saved text events) (herror : acted events (py "error") = false)
    (hstopped : acted events (py "stopped") = false) (hcut : cutOff events = false) :
    fourceOutcome G (some s.chat) = if startsWith ERR (lstrip text) then .stopped
      else if acted events (py "chat") then .direct else contentOutcome G text := by
  rw [s.inList_eq]
  simp [herror, hstopped, hcut]

omit [Unicode] [Casing] in
/-- A run with any status has a card. -/
theorem Saved.onMap_of_status (s : Saved text events) (action description : PyStr) (done : Bool)
    (h : .status action description done ∈ events) : s.onMap = some (progress {} events).view.shade := by
  rw [s.onMap_eq, if_neg]
  rw [List.isEmpty_iff]
  exact List.ne_nil_of_mem (List.mem_filterMap.mpr ⟨_, h, rfl⟩)

omit [Unicode] [Casing] in
theorem announcesTool_planning {new : History F} (h : ∀ e ∈ new, Working planning e) :
    announcesTool new = false :=
  acted_working (by decide) h

omit [Unicode] [Casing] in
/-- Nothing is known of a run before its model is chosen. -/
theorem view_progress_planning {new : History F} (h : ∀ e ∈ new, Working planning e) (p : Progress) :
    (progress p new).view = p.view := by
  rw [view_progress_working (fun e he ↦ Working.mono planning_subset_stages e (h e he)),
    announcesTool_planning h]
  rfl

/-- A run that ends before its model is chosen is interrupted, if it announced anything. -/
theorem agree_early {way : Way} (s : Saved text events) (h : Early way events) :
    Agree s.onMap (fourceOutcome G (some s.chat)) ↔ way ≠ .task ∧ way ≠ .noRequest := by
  have hnothing (h : events = []) : ¬ Agree s.onMap (fourceOutcome G (some s.chat)) := by
    have hmap : s.onMap = none := by
      rw [s.onMap_eq, h]
      rfl
    rw [hmap]
    exact not_agree_none s
  have hcut (h : (∀ e ∈ events, Working planning e) ∧
      ∃ action description, .status action description false ∈ events) :
      Agree s.onMap (fourceOutcome G (some s.chat)) := by
    obtain ⟨hplanning, action, description, hmem⟩ := h
    rw [s.onMap_of_status _ _ _ hmem, view_progress_planning hplanning,
      s.inList_stopped (Or.inr (cutOff_working hplanning ⟨action, description, hmem⟩))]
    exact agree_iff.mpr rfl
  cases way with
  | task | noRequest => simpa using hnothing h
  | noUser | noModel => simpa using hcut h
  | direct | failed | withheld | released => exact absurd h id

theorem agree_failing {way : Way} (s : Saved text events) (h : Failing way events) :
    Agree s.onMap (fourceOutcome G (some s.chat)) := by
  obtain ⟨-, before, description, rfl, hbefore⟩ := h
  have hlist : acted (before ++ [.status (py "error") description true]) (py "error") = true := by
    rw [acted_append]
    simp [acted, statuses, statusOf]
  have hview : (progress {} (before ++ [.status (py "error") description true])).view.shade = .failed := by
    rw [progress_append, progress_cons]
    calc _ = View.shade { (progress {} before).view with outcome := some .failed } :=
          congrArg View.shade (view_step_error _ true)
      _ = .failed := by
          rw [view_progress_working hbefore]
          split_ifs <;> rfl
  rw [s.onMap_of_status (py "error") description true (by simp), hview,
    s.inList_stopped (Or.inl hlist)]
  exact agree_iff.mpr rfl

omit [Unicode] [Casing] in
/-- What is shown of a direct reply does not begin as an error does. -/
theorem startsWith_shown (h : Shows text) : startsWith ERR (lstrip text) = false := by
  obtain ⟨reply, note, rfl, ⟨hreply, herror⟩, hnote⟩ := h
  cases reply with
  | nil =>
    rcases hnote with rfl | ⟨rest, rfl⟩
    · decide
    · rfl
  | cons c reply =>
    have hfront : lstrip (c :: reply ++ note) = c :: reply ++ note :=
      dropWhile_eq_self_of_head fun x hx ↦ hreply.front x (by simpa using hx)
    have hERR : (10 : CodePoint) ∉ ERR := by decide
    rcases hnote with rfl | ⟨rest, rfl⟩
    · rw [hfront, List.append_nil, herror]
    · calc startsWith ERR (lstrip (c :: reply ++ (py "\n\n*Direct" ++ rest))) =
            startsWith ERR (c :: reply ++ 10 :: (py "\n*Direct" ++ rest)) := by
            rw [hfront]
            rfl
        _ = startsWith ERR (c :: reply) := startsWith_append_newline hERR
        _ = false := herror

/-- Small talk is a direct reply in both, or a failure in both. -/
theorem agree_smallTalk {way : Way} {plan talk : History F} (s : Saved text events)
    (hevents : events = plan ++ talk) (hplan : ∀ e ∈ plan, Working planning e) (h : SmallTalk way text talk) :
    Agree s.onMap (fourceOutcome G (some s.chat)) := by
  obtain ⟨description, middle, action, closing, rfl, hmiddle, hway⟩ := h
  obtain ⟨p, hp, hprogress⟩ : ∃ p : Progress, p.view = ⟨true, false, none⟩ ∧
      progress {} events = p.step ⟨some action, some true⟩ := by
    refine ⟨progress ((progress {} plan).step ⟨some (py "chat"), some false⟩) middle, ?_, ?_⟩
    · rw [view_progress_silent hmiddle, view_step_chat, view_progress_planning hplan]
      rfl
    · rw [hevents, progress_append, progress_cons, progress_append]
      rfl
  have hacted (other : PyStr) (hother : other ∉ planning) :
      acted events other = (decide (py "chat" = other) || decide (action = other)) := by
    have hchat : acted (.status (py "chat") description false :: (middle ++ [.status action closing true])) other =
        (decide (py "chat" = other) || (acted middle other || decide (action = other))) := by
      rw [← List.singleton_append, acted_append, acted_append]
      simp [acted, statuses, statusOf]
    rw [hevents, acted_append, acted_working hother hplan, hchat, acted_working List.not_mem_nil hmiddle]
    rfl
  have hcut : cutOff events = false := by
    have hlast := cutOff_of_closed (plan ++ .status (py "chat") description false :: middle) action closing
    simpa [hevents] using hlast
  rw [s.onMap_of_status (py "chat") description false (by simp [hevents]),
    hprogress]
  rcases hway with ⟨-, rfl, reply, note, rfl, ⟨hreply, herror⟩, hnote⟩ | ⟨-, rfl⟩
  · have hclosed := startsWith_shown ⟨reply, note, rfl, ⟨hreply, herror⟩, hnote⟩
    have hchat : acted events (py "chat") = true := by
      rw [hacted _ (by decide)]
      simp
    have herrors : acted events (py "error") = false ∧ acted events (py "stopped") = false := by
      rw [hacted _ (by decide), hacted _ (by decide)]
      decide
    rw [view_step_chat, hp, s.inList_closed herrors.1 herrors.2 hcut, hclosed, hchat]
    exact agree_iff.mpr rfl
  · rw [view_step_error, hp, s.inList_stopped (Or.inl (by rw [hacted _ (by decide)]; simp))]
    exact agree_iff.mpr rfl

end

/-! ## Withheld and released -/

section

variable [Unicode] [DashCasing] [ChatFloat F]

omit [Unicode] [DashCasing] [ChatFloat F] in
/-- The actions by which the chat list tells an ending are no stages. -/
theorem acted_stages {new : History F} (h : ∀ e ∈ new, Working stages e) :
    ∀ action ∈ [py "error", py "stopped", py "chat"], acted new action = false := by
  have hstages : ∀ action ∈ [py "error", py "stopped", py "chat"], action ∉ stages := by decide
  exact fun action haction ↦ acted_working (hstages action haction) h

omit [Unicode] [DashCasing] [ChatFloat F] in
theorem acted_asking {rest : History F → Prop} {gate : History F} (h : Asking rest gate) {action : PyStr}
    (haction : action ≠ py "approval") : ∃ after, rest after ∧ acted gate action = acted after action := by
  obtain ⟨description, question, after, rfl, hafter⟩ := h
  refine ⟨after, hafter, ?_⟩
  simp [acted, statuses, statusOf, haction.symm]

omit [Unicode] [DashCasing] [ChatFloat F] in
theorem view_direct_working {before : History F} (h : ∀ e ∈ before, Working stages e) :
    (progress {} before).view.direct = false := by
  rw [view_progress_working h]
  split_ifs <;> rfl

omit [Unicode] [DashCasing] [ChatFloat F] in
theorem acted_withholding (h : Withholding events) :
    ∀ action ∈ [py "error", py "stopped", py "chat"], acted events action = false := by
  obtain ⟨before, gate, rfl, hbefore, hgate⟩ := h
  intro action haction
  have hne : action ≠ py "approval" := by
    have hnone : py "approval" ∉ [py "error", py "stopped", py "chat"] := by decide
    rintro rfl
    exact hnone haction
  obtain ⟨after, ⟨rest, description, rfl, hrest⟩, hacted⟩ := acted_asking hgate hne
  rw [acted_append, acted_stages hbefore action haction, hacted, acted_append,
    acted_working List.not_mem_nil hrest]
  simp [acted, statuses, statusOf, hne.symm]

omit [Unicode] [DashCasing] [ChatFloat F] in
theorem cutOff_withholding (h : Withholding events) : cutOff events = false := by
  obtain ⟨before, gate, rfl, -, description, question, after, rfl, rest, closing, rfl, -⟩ := h
  have hclosed := cutOff_of_closed (before ++ .status (py "approval") description false :: .ask question :: rest)
    (py "approval") closing
  simpa using hclosed

omit [Unicode] [DashCasing] [ChatFloat F] in
theorem shade_withholding (h : Withholding events) : (progress {} events).view.shade = .withheld := by
  obtain ⟨before, gate, rfl, hbefore, hgate⟩ := h
  obtain ⟨after, q, ⟨rest, description, rfl, hrest⟩, hq, hprogress⟩ :=
    view_progress_asking hgate (progress {} before)
  have hview : (progress {} (before ++ gate)).view =
      { (progress q rest).view with asked := true, outcome := some .withheld } := by
    rw [progress_append, hprogress, progress_append]
    exact view_step_approval (progress q rest) true
  rw [hview, view_progress_silent hrest, hq, View.shade]
  simp [view_direct_working hbefore]

/-- A run whose question was answered with something else than an approval is withheld in both. -/
theorem agree_withholding {approval : Approval} {e : Ending F}
    (s : Saved (storedContent [] approval e) events) (h : Withholding events)
    (happroval : approval = .rejected ∨ approval = .noReviewer) :
    Agree s.onMap (fourceOutcome F (some s.chat)) := by
  have hmap : s.onMap = some .withheld := by
    obtain ⟨before, gate, hevents, -, description, question, after, hgate, -⟩ := id h
    rw [s.onMap_of_status (py "approval") description false
      (by simp [hevents, hgate]), shade_withholding h]
  have hacted := acted_withholding h
  have hopens : ¬ OpensReceipt [] := not_opensReceipt_of_no_tick rfl
  have herror : startsWith ERR (lstrip (storedContent [] approval e)) = false := by
    obtain ⟨more, hcontent⟩ := storedContent_eq [] approval e
    rw [hcontent, startsWith_ERR_glue]
    exact notice_not_error rfl approval
  have hne : approval ≠ .notRequired := by
    rintro rfl
    simp at happroval
  rw [hmap, s.inList_closed (hacted _ (by simp)) (hacted _ (by simp)) (cutOff_withholding h), herror,
    hacted (py "chat") (by simp), contentOutcome_storedContent (notice_not_opens hopens approval)]
  simp only [hne, false_and, if_false, Bool.false_eq_true]
  rcases happroval with rfl | rfl
  · exact agree_iff.mpr rfl
  · exact agree_iff.mpr rfl

/-! ### Released -/

omit [Unicode] [DashCasing] [ChatFloat F] in
theorem acted_releasing {asked : Bool} {before : History F} (hbefore : ∀ e ∈ before, Working stages e)
    (h : Releasing asked before events) :
    ∀ action ∈ [py "error", py "stopped", py "chat"], acted events action = false := by
  obtain ⟨gate, after, rfl, hafter, hgate⟩ := h
  intro action haction
  have hne : action ≠ py "approval" ∧ py "done" ≠ action := by
    have hnone : py "approval" ∉ [py "error", py "stopped", py "chat"] ∧
        py "done" ∉ [py "error", py "stopped", py "chat"] := by decide
    constructor
    · rintro rfl
      exact hnone.1 haction
    · rintro rfl
      exact hnone.2 haction
  have hgate : acted gate action = false := by
    split at hgate
    · obtain ⟨rest, hrest, hacted⟩ := acted_asking hgate hne.1
      rw [hacted, acted_working List.not_mem_nil hrest]
    · exact acted_working List.not_mem_nil hgate
  rw [acted_append, acted_append, acted_append, acted_stages hbefore action haction, hgate,
    acted_stages hafter action haction]
  simp [acted, statuses, statusOf, completed, hne.2]

omit [Unicode] [DashCasing] [ChatFloat F] in
/-- On the map a released run is complete if a tool was announced before its gate, and else by whether
its reviewer was asked. -/
theorem shade_releasing {asked : Bool} {before : History F} (hbefore : ∀ e ∈ before, Working stages e)
    (h : Releasing asked before events) : (progress {} events).view.shade =
      if asked && !announcesTool before then .released else .complete := by
  obtain ⟨gate, after, rfl, hafter, hgate⟩ := h
  obtain ⟨q, hq, hprogress⟩ : ∃ q : Progress, q.view = { (progress {} before).view with asked := asked } ∧
      (progress (progress {} before) gate).view = q.view := by
    split at hgate
    · rename_i hasked
      obtain ⟨rest, q, hrest, hq, hprogress⟩ := view_progress_asking hgate (progress {} before)
      exact ⟨q, by rw [hq, hasked], by rw [hprogress, view_progress_silent hrest]⟩
    · rename_i hasked
      refine ⟨progress {} before, ?_, view_progress_silent hgate _⟩
      rw [Bool.eq_false_iff.mpr hasked]
      rw [view_progress_working hbefore]
      split_ifs <;> rfl
  have hview : (progress {} (before ++ gate ++ after ++ [completed])).view = q.view.settle := by
    calc _ = (progress (progress (progress {} before) gate) after).view.settle := by
          rw [progress_append, progress_append, progress_append]
          exact view_step_settle _ (Or.inr rfl) true
      _ = q.view.settle := by
          rw [view_progress_working hafter, hprogress]
          split_ifs
          · exact settle_settle _
          · rfl
  rw [hview, hq, view_progress_working hbefore]
  cases asked <;> cases announcesTool before <;> rfl

end

/-! ## The answer without its record -/

section

variable [Unicode] [Casing] [PySeconds F] (env : Env F)

/-- The answer of a run: the text it returns with its reasoning hidden. -/
def answerOf : PyStr :=
  match (run (unreasoned env)).1 with
  | .text _ text => text
  | .raised | .exhausted => []

theorem toGate_unreasoned : toGate (unreasoned env) = toGate env := rfl

theorem signOff_unreasoned (r : Finished F) : signOff (unreasoned env) r = signOff env r := rfl

/-- A run that is released: its answer is what it shows with its reasoning hidden. -/
theorem answerOf_released {r : Finished F} {v v' w : World F} {approval : Approval} {waited : F}
    {stamp : PyStr × PyStr} {answer : PyStr} (hgate : (toGate env).run.run {} = (.ok r, v))
    (hsign : (signOff env r).run.run v = (.ok (approval, waited, stamp), v'))
    (hrelease : (release (unreasoned env) r approval waited stamp).run.run v' =
      (.ok (.text .released answer), w)) : answerOf env = answer := by
  have hrun : run (unreasoned env) = (.text .released answer, w) := by
    rw [run, runChain_eq, run_bind, toGate_unreasoned, hgate]
    dsimp only
    rw [run_bind, signOff_unreasoned, hsign]
    dsimp only
    rw [hrelease]
  rw [answerOf, hrun]

/-- Dictionaries have each key once, the revision's and those of the egress watch. -/
structure Dictionaries : Prop where
  revision : ∀ first draft verdict, (env.helpers.revision first draft verdict).wf = true
  egress : ∀ events, ∀ e ∈ env.egress events, (Json.obj e.dict).wf = true

omit [Unicode] [Casing] [PySeconds F] in
theorem keyed_of_looped (hdicts : Dictionaries env) {r : Finished F} (h : Looped env r) : Keyed env r := by
  obtain ⟨g, result, rfl, hrevision⟩ := h
  refine ⟨?_, ?_, hdicts.egress⟩
  · have hagents : [Agent.friday, .jarvis, .ultron].Nodup := by decide
    exact hagents
  · intro x hx
    unfold Orchestrator.finished withRevision at hx
    dsimp only at hx
    split at hx
    · rw [hrevision] at hx
      cases hx
    · cases hx
      exact hdicts.revision _ _ _

end

/-! ## Agreement -/

/-- The run put its question. -/
def asked (events : History F) : Bool :=
  events.any fun
    | .ask _ => true
    | .status _ _ _ | .source _ | .audit _ _ | .agent _ _ _ | .tool _ => false

/-- What a run did before it put its question. -/
def beforeAsking (events : History F) : History F :=
  events.takeWhile fun
    | .ask _ => false
    | .status _ _ _ | .source _ | .audit _ _ | .agent _ _ _ | .tool _ => true

/-- A tool was announced before the question. -/
def toolFirst (events : History F) : Bool := announcesTool (beforeAsking events)

/-- An approval that says neither that it was given nor that it was not. -/
def silent (approval : PyStr) : Bool :=
  approval ≠ py "approved" && !startsWith (py "rejected") approval && !contains (py "not obtained") approval

theorem beforeAsking_of_working {before : History F} {actions : List PyStr}
    (h : ∀ e ∈ before, Working actions e) (rest : History F) :
    beforeAsking (before ++ rest) = before ++ beforeAsking rest ∧ asked (before ++ rest) = asked rest := by
  induction before with
  | nil => exact ⟨rfl, rfl⟩
  | cons e before ih =>
    obtain ⟨ihbefore, ihasked⟩ := ih fun x hx ↦ h x (List.mem_cons_of_mem e hx)
    have he := h e List.mem_cons_self
    cases e with
    | ask question => exact absurd he id
    | status | source | audit | agent | tool =>
      exact ⟨congrArg (List.cons _) ihbefore, ihasked⟩

/-- What the ledger of a released run says of its gate. -/
theorem asked_releasing {asks : Bool} {before : History F} (hbefore : ∀ e ∈ before, Working stages e)
    (h : Releasing asks before events) :
    asked events = asks ∧ (asks = true → toolFirst events = announcesTool before) := by
  obtain ⟨gate, after, rfl, hafter, hgate⟩ := h
  rw [toolFirst, List.append_assoc, List.append_assoc, (beforeAsking_of_working hbefore _).1,
    (beforeAsking_of_working hbefore _).2]
  cases asks with
  | true =>
    obtain ⟨description, question, rest, rfl, -⟩ := hgate
    refine ⟨rfl, fun _ ↦ ?_⟩
    have happroval : decide (py "approval" = py "tool") = false := by decide
    have hstatuses : statuses (before ++ [.status (py "approval") description false]) =
        statuses before ++ [⟨some (py "approval"), some false⟩] := statuses_append _ _
    calc announcesTool (before ++ [.status (py "approval") description false]) =
        (announcesTool before || decide (some (py "approval") = some (py "tool"))) := by
          rw [announcesTool, hstatuses, List.any_append]
          rfl
      _ = announcesTool before := by simp [happroval]
  | false =>
    refine ⟨?_, fun h ↦ by cases h⟩
    rw [(beforeAsking_of_working hgate _).2, (beforeAsking_of_working hafter _).2]
    rfl

section

variable [Unicode] [DashCasing] (F) [ChatFloat F]

/-- What the chat list reads in a released answer is what the map has seen.  An answer that opens no
receipt is read by the record behind it; one that opens a receipt, by that. -/
structure Readable (asked toolFirst required : Bool) (answer text : PyStr) : Prop where
  clean : startsWith ERR (lstrip answer) = false
  own : ¬ OpensReceipt answer →
    if asked then toolFirst = false else required = false ∧ contains withheldWords text = false
  quoted : OpensReceipt answer → ∀ approval, receiptApproval F (answer ++ glue ++ py "```") = some approval →
    if asked && !toolFirst then approval = py "approved"
    else silent approval = true ∧ contains withheldWords text = false

variable {F}

theorem contentOutcome_of_quoted {answer : PyStr} (h : OpensReceipt answer) {approval : Approval}
    (happroval : shownText answer approval = answer) (e : Ending F) : ∃ quoted,
      receiptApproval F (answer ++ glue ++ py "```") = some quoted ∧
        contentOutcome F (storedContent answer approval e) =
          if quoted = py "approved" then .released
          else if silent quoted && !contains withheldWords (storedContent answer approval e) then .done
          else .withheld := by
  obtain ⟨g, hg⟩ := receiptBody_of_opens h
  refine ⟨approvalIn F g, ?_, ?_⟩
  · have hbody := hg []
    rw [List.append_nil] at hbody
    rw [receiptApproval_eq, hbody]
    rfl
  · obtain ⟨more, hcontent⟩ := storedContent_eq answer approval e
    have hquoted : receiptApproval F (storedContent answer approval e) = some (approvalIn F g) := by
      rw [receiptApproval_eq, hcontent, happroval, show fence = py "```" ++ py "4ce-receipt" by decide,
        List.append_assoc (py "```"), hg]
      rfl
    rw [contentOutcome, hquoted, Option.getD_some, silent]
    by_cases happroved : approvalIn F g = py "approved"
    · rw [if_pos happroved, if_pos happroved]
    · rw [if_neg happroved, if_neg happroved]
      simp only [happroved, ne_eq, not_false_eq_true, decide_true, Bool.true_and]
      cases startsWith (py "rejected") (approvalIn F g) <;>
        cases contains (py "not obtained") (approvalIn F g) <;>
        cases hwords : contains withheldWords (storedContent answer approval e) <;>
        simp [show py "### Deliverable withheld" = withheldWords from rfl, hwords]

/-- The text of a released run. -/
theorem storedContent_released (answer : PyStr) (required asks : Bool) (e : Ending F) :
    storedContent answer (approvalOf required asks) e =
      answer ++ py "\n\n" ++ e.record (approvalOf required asks) := by
  cases asks <;> cases required <;> rfl

omit [Unicode] [DashCasing] [ChatFloat F] in
theorem onMap_releasing {asks : Bool} {before : History F} {text : PyStr} (s : Saved text events)
    (hbefore : ∀ e ∈ before, Working stages e) (h : Releasing asks before events) :
    s.onMap = some (if asks && !toolFirst events then .released else .complete) := by
  have hgate : (asks && !toolFirst events) = (asks && !announcesTool before) := by
    cases asks with
    | false => rfl
    | true => rw [(asked_releasing hbefore h).2 rfl]
  obtain ⟨gate, after, hevents, -⟩ := id h
  rw [s.onMap_of_status (py "done") (py "Complete") true
    (by simp [hevents, completed]), shade_releasing hbefore h, hgate]

theorem inList_releasing {asks required : Bool} {answer : PyStr} {e : Ending F} {before : History F}
    (s : Saved (storedContent answer (approvalOf required asks) e) events)
    (hbefore : ∀ e ∈ before, Working stages e) (h : Releasing asks before events) :
    fourceOutcome F (some s.chat) = if startsWith ERR (lstrip answer) then .stopped
      else contentOutcome F (storedContent answer (approvalOf required asks) e) := by
  have hcut : cutOff events = false := by
    obtain ⟨gate, after, rfl, -⟩ := h
    exact cutOff_of_closed _ _ _
  have hacted := acted_releasing hbefore h
  have herror : startsWith ERR (lstrip (storedContent answer (approvalOf required asks) e)) =
      startsWith ERR (lstrip answer) := by
    obtain ⟨more, hcontent⟩ := storedContent_eq answer (approvalOf required asks) e
    have hshown : shownText answer (approvalOf required asks) = answer := by
      cases asks <;> cases required <;> rfl
    rw [hcontent, startsWith_ERR_glue, hshown]
  rw [s.inList_closed (hacted _ (by simp)) (hacted _ (by simp)) hcut, hacted (py "chat") (by simp), herror]
  simp

theorem agree_releasing {asks required : Bool} {answer : PyStr} {e : Ending F} {before : History F}
    (s : Saved (storedContent answer (approvalOf required asks) e) events)
    (hbefore : ∀ e ∈ before, Working stages e) (h : Releasing asks before events) :
    Agree s.onMap (fourceOutcome F (some s.chat)) ↔ Readable F (asked events) (toolFirst events) required answer
      (storedContent answer (approvalOf required asks) e) := by
  have hshown : shownText answer (approvalOf required asks) = answer := by
    cases asks <;> cases required <;> rfl
  have hagree : Agree s.onMap (fourceOutcome F (some s.chat)) ↔ startsWith ERR (lstrip answer) = false ∧
      contentOutcome F (storedContent answer (approvalOf required asks) e) =
        if asks && !toolFirst events then .released else .done := by
    rw [onMap_releasing s hbefore h, inList_releasing s hbefore h, agree_iff]
    cases startsWith ERR (lstrip answer) <;> cases asks && !toolFirst events <;> simp
  obtain ⟨text, htext⟩ : ∃ text, text = storedContent answer (approvalOf required asks) e := ⟨_, rfl⟩
  rw [hagree, (asked_releasing hbefore h).1, ← htext]
  by_cases hopens : OpensReceipt answer
  · obtain ⟨quoted, hquoted, hcontent⟩ := contentOutcome_of_quoted hopens hshown e
    rw [← htext] at hcontent
    have hread : contentOutcome F text = (if asks && !toolFirst events then .released else .done) ↔
        if asks && !toolFirst events then quoted = py "approved"
        else silent quoted = true ∧ contains withheldWords text = false := by
      rw [hcontent]
      by_cases happroved : quoted = py "approved"
      · cases asks && !toolFirst events <;> simp [happroved, silent]
      · cases asks && !toolFirst events <;> cases silent quoted <;>
          cases contains withheldWords text <;> simp [happroved]
    rw [hread]
    constructor
    · rintro ⟨hclean, hsays⟩
      refine ⟨hclean, fun h ↦ absurd hopens h, fun _ approval happroval ↦ ?_⟩
      obtain rfl : quoted = approval := Option.some.inj (hquoted.symm.trans happroval)
      exact hsays
    · exact fun h ↦ ⟨h.clean, h.quoted hopens quoted hquoted⟩
  · have hcontent := contentOutcome_storedContent (F := F) (hshown.symm ▸ hopens) e
    rw [← htext] at hcontent
    have hread : contentOutcome F text = (if asks && !toolFirst events then .released else .done) ↔
        if asks then toolFirst events = false else required = false ∧ contains withheldWords text = false := by
      rw [hcontent]
      cases asks <;> cases required <;> cases toolFirst events <;>
        cases contains withheldWords text <;> simp [approvalOf, realOutcome]
    rw [hread]
    constructor
    · exact fun h ↦ ⟨h.1, fun _ ↦ h.2, fun h ↦ absurd h hopens⟩
    · exact fun h ↦ ⟨h.clean, h.own hopens⟩

/-- Where the map and the chat list agree on a finished run: not on one that announced nothing, and on
a released one just where its answer is read as what the map has seen. -/
def Plain (env : Env F) (way : Way) (text : PyStr) (events : History F) : Prop :=
  match way with
  | .task | .noRequest => False
  | .noUser | .noModel | .direct | .failed | .withheld => True
  | .released => Readable F (asked events) (toolFirst events) env.valves.requireApproval (answerOf env) text

/-- The map and the chat list agree on a finished run that shows its reasoning if and only if it is a
plain one. -/
theorem map_agrees_iff (env : Env F) (hdicts : Dictionaries env) (hshow : env.valves.showReasoning = true)
    {way : Way} {text : PyStr} {w : World F} (hrun : run env = (.text way text, w))
    (s : Saved text w.events) :
    Agree s.onMap (fourceOutcome F (some s.chat)) ↔ Plain env way text w.events := by
  rcases run_ends env hrun with hearly | ⟨r, v, hgate, hworking, hlooped, hfrom⟩
  · rcases hearly with hearly | ⟨plan, talk, hevents, hplan, hsmall⟩ | hfailing
    · rw [agree_early s hearly]
      cases way with
      | task | noRequest | noUser | noModel => simp [Plain]
      | direct | failed | withheld | released => exact absurd hearly id
    · have hway : way = .direct ∨ way = .failed := by
        obtain ⟨-, -, -, -, -, -, ⟨rfl, -⟩ | ⟨rfl, -⟩⟩ := hsmall
        · exact Or.inl rfl
        · exact Or.inr rfl
      have hagree := agree_smallTalk (G := F) s hevents hplan hsmall
      rcases hway with rfl | rfl
      · exact iff_of_true hagree trivial
      · exact iff_of_true hagree trivial
    · obtain rfl := hfailing.1
      exact iff_of_true (agree_failing s hfailing) trivial
  · have hkeyed := keyed_of_looped env hdicts hlooped
    rcases hfrom with hwithheld | ⟨approval, waited, stamp, v', hsign, hrelease⟩
    · obtain ⟨rfl, hwithholding⟩ := signOff_withholds env hworking hwithheld
      obtain ⟨approval, e, happroval, hstored⟩ := signOff_stores env hkeyed hwithheld
      obtain rfl : text = storedContent [] approval e := by
        have hended := hstored []
        cases hended
        rfl
      exact iff_of_true (agree_withholding s hwithholding happroval) trivial
    · obtain ⟨rfl, asks, rfl, hreleasing⟩ := release_releases env hsign hrelease
      obtain ⟨answer, e, htext, w', hanswer⟩ := release_answers env hkeyed hshow hrelease
      obtain rfl := htext.trans (storedContent_released answer _ _ e).symm
      rw [agree_releasing s hworking hreleasing, Plain, answerOf_released env hgate hsign hanswer]

/-- A run that was approved, and whose answer opens no receipt, is released in the chat list; on the map
it is complete if a tool was announced before the question. -/
theorem outcomes_of_approved (env : Env F) (hdicts : Dictionaries env)
    (hshow : env.valves.showReasoning = true) {text : PyStr} {w : World F}
    (hrun : run env = (.text .released text, w)) (hasked : asked w.events = true)
    (hclean : startsWith ERR (lstrip (answerOf env)) = false) (hopens : ¬ OpensReceipt (answerOf env))
    (s : Saved text w.events) :
    s.onMap = some (if toolFirst w.events then .complete else .released) ∧
      fourceOutcome F (some s.chat) = .released := by
  rcases run_ends env hrun with hearly | ⟨r, v, hgate, hworking, hlooped, hfrom⟩
  · rcases hearly with hearly | ⟨-, -, -, -, -, -, -, -, -, -, ⟨hway, -⟩ | ⟨hway, -⟩⟩ | ⟨hway, -⟩
    · exact absurd hearly id
    all_goals cases hway
  rcases hfrom with hwithheld | ⟨approval, waited, stamp, v', hsign, hrelease⟩
  · cases (signOff_withholds env hworking hwithheld).1
  obtain ⟨-, asks, rfl, hreleasing⟩ := release_releases env hsign hrelease
  obtain ⟨answer, e, htext, w', hanswer⟩ :=
    release_answers env (keyed_of_looped env hdicts hlooped) hshow hrelease
  obtain rfl := htext.trans (storedContent_released answer _ _ e).symm
  rw [answerOf_released env hgate hsign hanswer] at hclean hopens
  obtain rfl : asks = true := (asked_releasing hworking hreleasing).1.symm.trans hasked
  constructor
  · rw [onMap_releasing s hworking hreleasing]
    cases toolFirst w.events <;> rfl
  · have hshown : ¬ OpensReceipt (shownText answer (approvalOf env.valves.requireApproval true)) := hopens
    rw [inList_releasing s hworking hreleasing, hclean, contentOutcome_storedContent hshown]
    rfl

end

end

/-! ## Two approved runs -/

section

local instance : Unicode := asciiTables
local instance : DashCasing := asciiDash
local instance : ChatFloat FloatLit := wholeSeconds

/-- Helpers that say nothing; whether a request gives readings is said once for all. -/
def plainHelpers (readings : Bool) : Helpers FloatLit where
  classify _ _ := (.analysis, [])
  wantsAudit _ := false
  hasReadings _ := readings
  wantsRemainingLife _ := false
  wantsSheetEdit _ := false
  fridayInstruction _ := []
  jarvisInstruction _ := []
  readPrompt _ := []
  unfencedPython _ := []
  parseFields _ _ := none
  surveyRows _ := []
  surveyReadings _ := []
  surveyLine _ _ := []
  withIntervalColumn s _ := s
  sopInterval _ := (whole 0, [])
  surveyChanges _ _ := none
  readingChecks _ := []
  figureChecks _ _ := []
  verdictChecks _ _ := []
  workbookChecks _ _ := []
  intervalChecks _ _ _ _ := []
  revision _ _ _ := .null
  review _ _ _ _ := .null
  artifacts _ _ := []
  documentTitle _ := []
  passages _ _ := []
  remedy _ := []

/-- A run that is asked about and approved. -/
def approvedRun (readings : Bool) : Env FloatLit where
  valves := ⟨false, false, false, false, true, false, true, false⟩
  task := false
  request := some ⟨py "Is V-101 fit?", false, .page, false, [], [], [], true⟩
  user := some ⟨py "u", py "Reviewer", []⟩
  helpers := plainHelpers readings
  tools := none
  retrieve := ([], false)
  route _ := some ⟨py "qwen3:14b", py "default", []⟩
  agentModel _ m := m
  model _ _ _ _ := .ok ⟨py "Fit.", [], []⟩
  storeImage _ := []
  reviewer _ := .str (py "approve")
  clock _ := whole 0
  now _ := []
  stamp _ := ([], [])
  egress _ := none
  trailSpan _ := []
  sha256 _ := []

theorem dictionaries_approvedRun (readings : Bool) : Dictionaries (approvedRun readings) :=
  ⟨fun _ _ _ ↦ rfl, fun _ e he ↦ by cases he⟩

/-- The message of a run, alone in its chat. -/
def savedMessage (text : PyStr) (events : History FloatLit) : Message where
  id := some (py "a")
  parentId := none
  role := some (py "assistant")
  model := some (py "ace_orchestrator")
  done := true
  content := some text
  statusHistory := statuses events

theorem startsWith_ace_orchestrator : startsWith (py "ace_orchestrator") (py "ace_orchestrator") = true := by decide

def savedAlone (text : PyStr) (events : History FloatLit) : Saved text events where
  chat := ⟨some (py "a"), [(py "a", savedMessage text events)]⟩
  answer := savedMessage text events
  latest := rfl
  model := startsWith_ace_orchestrator
  done := rfl
  stored := rfl
  emitted := rfl

theorem approvedRun_released (readings : Bool) :
    ∃ text, run (approvedRun readings) = (.text .released text, (run (approvedRun readings)).2) := by
  have hway : (match (run (approvedRun readings)).1 with
      | .text .released _ => true
      | _ => false) = true := by
    cases readings <;> decide +kernel
  rcases hrun : run (approvedRun readings) with ⟨ended, w⟩
  rw [hrun] at hway
  cases ended with
  | text way text =>
    cases way with
    | released => exact ⟨text, rfl⟩
    | task | noRequest | noUser | noModel | direct | failed | withheld => cases hway
  | raised | exhausted => cases hway

theorem answerOf_approvedRun (readings : Bool) : answerOf (approvedRun readings) = py "Fit." := by
  cases readings <;> decide +kernel

theorem asked_approvedRun (readings : Bool) : asked (run (approvedRun readings)).2.events = true := by
  cases readings <;> decide +kernel

theorem fit_opens_nothing : ¬ OpensReceipt (py "Fit.") :=
  not_opensReceipt_of_no_tick (by decide)

/-- An approved run whose readings were compared with the thresholds: the map shows it complete, the
chat list released. -/
theorem early_tool_reads_complete :
    ∃ text w, run (approvedRun true) = (.text .released text, w) ∧ ∃ s : Saved text w.events,
      s.onMap = some .complete ∧ fourceOutcome FloatLit (some s.chat) = .released := by
  obtain ⟨text, hrun⟩ := approvedRun_released true
  have hfirst : toolFirst (run (approvedRun true)).2.events = true := by decide +kernel
  obtain ⟨hmap, hlist⟩ := outcomes_of_approved (approvedRun true) (dictionaries_approvedRun true) rfl hrun
    (asked_approvedRun true) (by rw [answerOf_approvedRun]; decide)
    (by rw [answerOf_approvedRun]; exact fit_opens_nothing) (savedAlone text _)
  rw [hfirst] at hmap
  exact ⟨text, _, hrun, savedAlone text _, hmap, hlist⟩

/-- Without readings no tool runs before its question, and the two agree. -/
theorem map_agrees_without_readings :
    ∃ text w, run (approvedRun false) = (.text .released text, w) ∧ ∃ s : Saved text w.events,
      Agree s.onMap (fourceOutcome FloatLit (some s.chat)) := by
  obtain ⟨text, hrun⟩ := approvedRun_released false
  have hfirst : toolFirst (run (approvedRun false)).2.events = false := by decide +kernel
  have hplain : Plain (approvedRun false) .released text (run (approvedRun false)).2.events := by
    refine ⟨?_, fun _ ↦ ?_, fun h ↦ ?_⟩
    · rw [answerOf_approvedRun]
      decide
    · rw [asked_approvedRun, hfirst]
      rfl
    · rw [answerOf_approvedRun] at h
      exact absurd h fit_opens_nothing
  exact ⟨text, _, hrun, savedAlone text _,
    (map_agrees_iff (approvedRun false) (dictionaries_approvedRun false) rfl hrun (savedAlone text _)).mpr hplain⟩

end

end FourCE.Sidebar

import FourCE.Chats.ToolApproval
import FourCE.Library.Interleave
import FourCE.Sop.Disposition

/-!
# Requests that decide tool calls of one message

Each request reads the output of the message, edits one call in it and writes the whole output back, into
the embedded history and into the row of the message.  Nothing is lost as long as what a write replaces
is what the request had read.
-/

namespace FourCE.Chats

open FourCE.Library FourCE.Python Pool

variable {F : Type}

/-- What is stored of one message: the user of its chat, its output in the row of `chat_message`, and its
output in the history that is embedded in the chat. -/
structure Stored (F : Type) where
  owner : Option PyStr
  row : Option (Json F)
  history : Option (Json F)

/-- The output as a request reads it: of the row, and of the history where there is no row. -/
def Stored.output (s : Stored F) : Json F := (s.row.or s.history).getD .null

/-- The steps of a request on the database. -/
inductive Query (F : Type)
  | getChat
  | getRow
  | getHistory
  | lockChat
  | commitChat (output : Json F)
  | getMessageRow
  | commitRow (output : Json F)

@[reducible]
def QueryResult : Query F → Type
  | .getChat => Option PyStr
  | .getRow => Option (Json F)
  | .getHistory => Option (Json F)
  | .lockChat => Bool
  | .commitChat _ => Unit
  | .getMessageRow => Bool
  | .commitRow _ => Unit

def query : (c : Query F) → Stored F → Option (QueryResult c × Stored F)
  | .getChat, s => some (s.owner, s)
  | .getRow, s => some (s.row, s)
  | .getHistory, s => some (s.history, s)
  | .lockChat, s => some (s.owner.isSome, s)
  | .commitChat output, s => some ((), { s with history := some output })
  | .getMessageRow, s => some (s.row.isSome, s)
  | .commitRow output, s => some ((), { s with row := some output })

/-- A request to decide a call. -/
structure Decision (F : Type) where
  user : PyStr
  admin : Bool
  form_data : ResolveToolCallForm F

/-- `upsert_message_to_chat_by_id_and_message_id`, both writes of it. -/
def upsertOutput (output : Json F) : Proc (Query F) QueryResult Unit := do
  let found ← Proc.send Query.lockChat
  if found then
    Proc.send (Query.commitChat output)
    let _ ← Proc.send Query.getMessageRow
    Proc.send (Query.commitRow output)
  else return ()

variable [Runtime F]

/-- The output with the decision, unless the request is refused. -/
def resolved (dumps : Json F → PyStr) (form_data : ResolveToolCallForm F) (output : Json F) :
    Option (Json F) :=
  (outputItems output).bind fun items ↦
    (resolveItems dumps form_data items).map fun items ↦ .arr (items.map .obj)

/-- What a request does once it has the message. -/
def decideOn (dumps : Json F → PyStr) (d : Decision F) (message : Option (Json F)) :
    Proc (Query F) QueryResult Bool :=
  match message with
  | none => .ret false
  | some output => match resolved dumps d.form_data output with
    | none => .ret false
    | some output => do
      upsertOutput output
      return true

/-- `resolve_tool_call_output`: whether it returns without an error. -/
def resolveToolCallOutput (dumps : Json F → PyStr) (d : Decision F) :
    Proc (Query F) QueryResult Bool := do
  let owner : Option PyStr ← Proc.send Query.getChat
  if owner.any (fun owner ↦ owner = d.user || d.admin) then
    let row : Option (Json F) ← Proc.send Query.getRow
    match row with
    | some output => decideOn dumps d (some output)
    | none =>
      let message : Option (Json F) ← Proc.send Query.getHistory
      decideOn dumps d message
  else return false

/-! ## What is stored after a decision -/

/-- The decision is reflected in an output. -/
def reflected (form_data : ResolveToolCallForm F) (output : Json F) : Bool :=
  (outputItems output).any (decided form_data)

/-- How many results a call has in an output. -/
def resultsIn (call_id : PyStr) (output : Json F) : ℕ := ((outputItems output).map (results call_id)).getD 0

omit [Runtime F] in
theorem mapM_obj (items : List (Dict F)) : ((items.map Json.obj).mapM fun item : Json F ↦ match item with
    | .obj d => some d
    | _ => none) = some items := by
  induction items with
  | nil => rfl
  | cons item items ih =>
    rw [List.map_cons, List.mapM_cons, ih]
    rfl

theorem outputItems_arr (items : List (Dict F)) : outputItems (.arr (items.map .obj)) = some items := by
  cases items with
  | nil => rfl
  | cons item items =>
    have htruth : (Json.arr ((item :: items).map .obj) : Json F).truth = true := by
      simp [Json.truth]
    unfold outputItems
    rw [htruth]
    exact mapM_obj (item :: items)

variable {dumps : Json F → PyStr} {form_data other : ResolveToolCallForm F} {output output' : Json F}

theorem resolves_of_resolved (h : resolved dumps form_data output = some output') :
    ∃ items items', outputItems output = some items ∧ outputItems output' = some items' ∧
      Resolves form_data items items' := by
  unfold resolved at h
  obtain ⟨items, hitems, h⟩ := Option.bind_eq_some_iff.mp h
  obtain ⟨items', hresolve, rfl⟩ := Option.map_eq_some_iff.mp h
  exact ⟨items, items', hitems, outputItems_arr items', resolves_of_resolveItems hresolve⟩

theorem reflected_self (h : resolved dumps form_data output = some output') :
    reflected form_data output' = true := by
  obtain ⟨items, items', -, hitems', hresolves⟩ := resolves_of_resolved h
  unfold reflected
  rw [hitems']
  exact hresolves.decided_self

theorem reflected_of_reflected (h : resolved dumps form_data output = some output')
    (hother : reflected other output = true) : reflected other output' = true := by
  obtain ⟨items, items', hitems, hitems', hresolves⟩ := resolves_of_resolved h
  unfold reflected at hother ⊢
  rw [hitems] at hother
  rw [hitems']
  exact hresolves.decided_of_decided hother

theorem resultsIn_le (h : resolved dumps form_data output = some output') (c : PyStr) :
    resultsIn c output' ≤ max 1 (resultsIn c output) := by
  obtain ⟨items, items', hitems, hitems', hresolves⟩ := resolves_of_resolved h
  unfold resultsIn
  rw [hitems, hitems']
  simp only [Option.map_some, Option.getD_some]
  rcases hresolves.results_eq c with heq | ⟨-, -, hone⟩
  · omega
  · omega

/-! ## Every schedule -/

/-- What a step tells of the output. -/
def readOf : (c : Query F) × QueryResult c → Option (Json F)
  | ⟨.getRow, reply⟩ => reply
  | ⟨.getHistory, reply⟩ => reply
  | _ => none

/-- The output that a thread read last. -/
def lastRead (i : ℕ) (log : List (ℕ × (c : Query F) × QueryResult c)) : Option (Json F) :=
  (log.filterMap fun e ↦ if e.1 = i then readOf e.2 else none).getLast?

/-- A write that changes the stored output finds there what its request had read. -/
def Unraced (i : ℕ) (c : Query F) (s : Stored F) (log : List (ℕ × (c : Query F) × QueryResult c)) : Prop :=
  ∀ r s', query c s = some (r, s') → s'.output ≠ s.output → lastRead i log = some s.output

omit [Runtime F] in
theorem lastRead_append (i j : ℕ) (log : List (ℕ × (c : Query F) × QueryResult c))
    (e : (c : Query F) × QueryResult c) :
    lastRead i (log ++ [(j, e)]) = if j = i then (readOf e).or (lastRead i log) else lastRead i log := by
  unfold lastRead
  rw [List.filterMap_append, List.getLast?_append]
  split_ifs with hj
  · simp only [List.filterMap_cons, List.filterMap_nil, if_pos hj]
    cases readOf e <;> rfl
  · simp only [List.filterMap_cons, List.filterMap_nil, if_neg hj]
    rfl

/-- The steps that write, in their order. -/
def rowStep (output : Json F) : Proc (Query F) QueryResult Bool := .cmd (.commitRow output) fun _ ↦ .ret true

def findStep (output : Json F) : Proc (Query F) QueryResult Bool := .cmd .getMessageRow fun _ ↦ rowStep output

def chatStep (output : Json F) : Proc (Query F) QueryResult Bool :=
  .cmd (.commitChat output) fun _ ↦ findStep output

def lockStep (output : Json F) : Proc (Query F) QueryResult Bool :=
  .cmd .lockChat fun found : Bool ↦ if found then chatStep output else .ret true

omit [Runtime F] in
theorem upsertOutput_eq (output : Json F) :
    (do upsertOutput output; return true : Proc (Query F) QueryResult Bool) = lockStep output := by
  unfold upsertOutput lockStep
  simp only [Proc.send_bind, Proc.cmd_bind]
  congr 1
  funext found
  cases found <;> rfl

/-- The second read, of a message that has no row. -/
def historyStep (dumps : Json F → PyStr) (d : Decision F) : Proc (Query F) QueryResult Bool :=
  .cmd .getHistory fun message : Option (Json F) ↦ decideOn dumps d message

def readStep (dumps : Json F → PyStr) (d : Decision F) : Proc (Query F) QueryResult Bool :=
  .cmd .getRow fun row : Option (Json F) ↦ match row with
    | some output => decideOn dumps d (some output)
    | none => historyStep dumps d

def chatReadStep (dumps : Json F → PyStr) (d : Decision F) : Proc (Query F) QueryResult Bool :=
  .cmd .getChat fun owner : Option PyStr ↦
    if owner.any fun owner ↦ owner = d.user || d.admin then readStep dumps d else .ret false

theorem resolveToolCallOutput_eq (dumps : Json F → PyStr) (d : Decision F) :
    resolveToolCallOutput dumps d = chatReadStep dumps d := by
  unfold resolveToolCallOutput chatReadStep
  rw [Proc.send_bind]
  congr 1

/-- How far a request has come, by what it last read. -/
inductive Stage (dumps : Json F → PyStr) (d : Decision F) (read : Option (Json F)) (s : Stored F) :
    Proc (Query F) QueryResult Bool → Prop
  | start : Stage dumps d read s (chatReadStep dumps d)
  | readRow (howner : s.owner.isSome = true) : Stage dumps d read s (readStep dumps d)
  | readHistory (howner : s.owner.isSome = true) : Stage dumps d read s (historyStep dumps d)
  | write {base output : Json F} {rest} (howner : s.owner.isSome = true) (hread : read = some base)
      (hresolved : resolved dumps d.form_data base = some output)
      (hrest : rest ∈ [lockStep output, chatStep output, findStep output, rowStep output]) :
      Stage dumps d read s rest
  | refused : Stage dumps d read s (.ret false)
  | answered (hreflected : reflected d.form_data s.output = true) : Stage dumps d read s (.ret true)

/-- With the message at hand a request is refused, or has read what it will change. -/
theorem stage_decideOn {d : Decision F} {s : Stored F} {message : Option (Json F)}
    (howner : s.owner.isSome = true) : Stage dumps d message s (decideOn dumps d message) := by
  unfold decideOn
  cases message with
  | none => exact .refused
  | some base =>
    dsimp only
    split
    · exact .refused
    · next output hresolved =>
      refine .write howner rfl hresolved ?_
      rw [upsertOutput_eq]
      exact List.mem_cons_self

variable {i : ℕ} {d : Decision F} {s s' : Stored F} {log : List (ℕ × (c : Query F) × QueryResult c)}
  {c : Query F} {k : QueryResult c → Proc (Query F) QueryResult Bool} {r : QueryResult c}

/-- A step leaves the stored output, or makes of it what the decision makes of it. -/
theorem output_after (hstage : Stage dumps d (lastRead i log) s (.cmd c k))
    (hquery : query c s = some (r, s')) (hunraced : Unraced i c s log) :
    s'.owner = s.owner ∧
      (s'.output = s.output ∨ resolved dumps d.form_data s.output = some s'.output) := by
  have hwrites : ∀ output, (c = .commitChat output ∨ c = .commitRow output) → ∃ base,
      lastRead i log = some base ∧ resolved dumps d.form_data base = some output := by
    intro output hc
    generalize hrest : Proc.cmd c k = rest at hstage
    cases hstage with
    | start => cases hrest; simp at hc
    | readRow => cases hrest; simp at hc
    | readHistory => cases hrest; simp at hc
    | write _ hread hresolved hmem =>
      simp only [List.mem_cons, List.not_mem_nil, or_false] at hmem
      rcases hmem with rfl | rfl | rfl | rfl
      all_goals
        cases hrest
        simp at hc
      all_goals exact ⟨_, hread, hc ▸ hresolved⟩
    | refused => cases hrest
    | answered => cases hrest
  have hchanged : ∀ output, (c = .commitChat output ∨ c = .commitRow output) → s'.output = output →
      s'.output = s.output ∨ resolved dumps d.form_data s.output = some s'.output := by
    intro output hc houtput
    by_cases hsame : s'.output = s.output
    · exact Or.inl hsame
    · obtain ⟨base, hread, hresolved⟩ := hwrites output hc
      rw [hunraced r s' hquery hsame] at hread
      cases hread
      exact Or.inr (houtput ▸ hresolved)
  cases c with
  | commitChat output =>
    cases hquery
    refine ⟨rfl, ?_⟩
    by_cases hrow : s.row = none
    · exact hchanged output (Or.inl rfl) (by simp [Stored.output, hrow])
    · obtain ⟨row, hrow⟩ := Option.ne_none_iff_exists'.mp hrow
      exact Or.inl (by simp [Stored.output, hrow])
  | commitRow output =>
    cases hquery
    exact ⟨rfl, hchanged output (Or.inr rfl) rfl⟩
  | getChat => cases hquery; exact ⟨rfl, Or.inl rfl⟩
  | getRow => cases hquery; exact ⟨rfl, Or.inl rfl⟩
  | getHistory => cases hquery; exact ⟨rfl, Or.inl rfl⟩
  | lockChat => cases hquery; exact ⟨rfl, Or.inl rfl⟩
  | getMessageRow => cases hquery; exact ⟨rfl, Or.inl rfl⟩

/-- A request that others wait for is where it was, and what is decided stays decided. -/
theorem stage_other {read : Option (Json F)} {rest : Proc (Query F) QueryResult Bool} {other : Decision F}
    (hstage : Stage dumps d read s rest) (howner : s'.owner = s.owner)
    (houtput : s'.output = s.output ∨ resolved dumps other.form_data s.output = some s'.output) :
    Stage dumps d read s' rest := by
  cases hstage with
  | start => exact .start
  | readRow h => exact .readRow (howner ▸ h)
  | readHistory h => exact .readHistory (howner ▸ h)
  | write h hread hresolved hrest => exact .write (howner ▸ h) hread hresolved hrest
  | refused => exact .refused
  | answered hreflected =>
    refine .answered ?_
    rcases houtput with heq | hresolved
    · rw [heq]
      exact hreflected
    · exact reflected_of_reflected hresolved hreflected

/-- A request takes its own step. -/
theorem stage_own (hstage : Stage dumps d (lastRead i log) s (.cmd c k)) (hquery : query c s = some (r, s')) :
    Stage dumps d (lastRead i (log ++ [(i, ⟨c, r⟩)])) s' (k r) := by
  rw [lastRead_append, if_pos rfl]
  generalize hcmd : Proc.cmd c k = rest at hstage
  cases hstage with
  | start =>
    cases hcmd
    cases hquery
    dsimp only
    split_ifs with hallowed
    · obtain ⟨owner, howner, -⟩ := (Option.any_eq_true _ _).mp hallowed
      exact .readRow (by rw [howner]; rfl)
    · exact .refused
  | readRow howner =>
    cases hcmd
    cases hquery
    dsimp only
    cases hrow : s.row with
    | none => exact .readHistory howner
    | some output => exact stage_decideOn howner
  | readHistory howner =>
    cases hcmd
    cases hquery
    cases hhistory : s.history with
    | none => exact .refused
    | some output => exact stage_decideOn howner
  | write howner hread hresolved hmem =>
    simp only [List.mem_cons, List.not_mem_nil, or_false] at hmem
    rcases hmem with rfl | rfl | rfl | rfl
    · cases hcmd
      cases hquery
      dsimp only
      rw [if_pos howner]
      exact .write howner hread hresolved (by simp)
    · cases hcmd
      cases hquery
      exact .write howner hread hresolved (by simp)
    · cases hcmd
      cases hquery
      exact .write howner hread hresolved (by simp)
    · cases hcmd
      cases hquery
      exact .answered (reflected_self hresolved)
  | refused => cases hcmd
  | answered => cases hcmd

/-- As long as no call has got more results than it had, or more than one. -/
def AtMostOne (s₀ s : Stored F) : Prop := ∀ c, resultsIn c s.output ≤ max 1 (resultsIn c s₀.output)

theorem atMostOne_after {s₀ : Stored F} (h : AtMostOne s₀ s)
    (houtput : s'.output = s.output ∨ resolved dumps d.form_data s.output = some s'.output) :
    AtMostOne s₀ s' := by
  rcases houtput with heq | hresolved
  · intro c
    rw [heq]
    exact h c
  · intro c
    have hle := resultsIn_le hresolved c
    have hbefore := h c
    omega

theorem keeps_decisions (dumps : Json F → PyStr) (s₀ : Stored F) :
    Keeps query (resolveToolCallOutput dumps) Unraced (fun s _ ↦ AtMostOne s₀ s)
      (fun i d rest s log ↦ Stage dumps d (lastRead i log) s rest) where
  begin i d s log _ := by
    rw [resolveToolCallOutput_eq]
    exact .start
  own i d c k r s s' log _ hquery hunraced hG hstage :=
    ⟨atMostOne_after hG (output_after hstage hquery hunraced).2, stage_own hstage hquery⟩
  other i d c k r s s' log j d' rest hne hquery hunraced hG hstage hother := by
    obtain ⟨howner, houtput⟩ := output_after hstage hquery hunraced
    rw [lastRead_append, if_neg hne.symm]
    exact stage_other hother howner houtput

/-- Requests of which no write replaces more than its request had read lose no decision, and give no call
a second result. -/
theorem decisions_kept (dumps : Json F → PyStr) (s₀ : Stored F) (turns : List (Turn (Decision F)))
    (h : Along query (resolveToolCallOutput dumps) (Taking Unraced) (idle s₀) turns) :
    let p := run query (resolveToolCallOutput dumps) (idle s₀) turns
    (∀ t ∈ p.threads, t.rest = .ret true → reflected t.op.form_data p.store.output = true) ∧
      ∀ call_id, resultsIn call_id p.store.output ≤ max 1 (resultsIn call_id s₀.output) := by
  have hkeeps := (keeps_decisions dumps s₀).run (fun c ↦ le_max_right 1 _) turns h
  refine ⟨fun t ht hrest ↦ ?_, hkeeps.1⟩
  obtain ⟨i, hi⟩ := List.mem_iff_getElem?.mp ht
  have hstage := hkeeps.2 i t hi
  rw [hrest] at hstage
  generalize hret : (Proc.ret true : Proc (Query F) QueryResult Bool) = rest at hstage
  cases hstage with
  | write _ _ _ hmem =>
    simp only [List.mem_cons, List.not_mem_nil, or_false] at hmem
    rcases hmem with rfl | rfl | rfl | rfl <;> cases hret
  | answered hreflected => exact hreflected
  | start => cases hret
  | readRow => cases hret
  | readHistory => cases hret
  | refused => cases hret

/-! ## Requests one after the other -/

/-- A request that nobody has written over since it read. -/
inductive Undisturbed (dumps : Json F → PyStr) (d : Decision F) (read : Option (Json F)) (s : Stored F) :
    Proc (Query F) QueryResult Bool → Prop
  | start : Undisturbed dumps d read s (chatReadStep dumps d)
  | readRow : Undisturbed dumps d read s (readStep dumps d)
  | readHistory (hrow : s.row = none) : Undisturbed dumps d read s (historyStep dumps d)
  | write {base output : Json F} {rest} (hread : read = some base)
      (houtput : s.output = base ∨ s.output = output)
      (hrest : rest ∈ [lockStep output, chatStep output, findStep output, rowStep output]) :
      Undisturbed dumps d read s rest
  | returned (answer : Bool) : Undisturbed dumps d read s (.ret answer)

theorem undisturbed_decideOn {d : Decision F} {s : Stored F} {base : Json F} (hbase : s.output = base) :
    Undisturbed dumps d (some base) s (decideOn dumps d (some base)) := by
  unfold decideOn
  dsimp only
  split
  · exact .returned false
  · next output hresolved =>
    have hrest : (do upsertOutput output; return true : Proc (Query F) QueryResult Bool) ∈
        [lockStep output, chatStep output, findStep output, rowStep output] := by
      rw [upsertOutput_eq]
      exact List.mem_cons_self
    exact .write rfl (Or.inl hbase) hrest

/-- Its next step changes nothing that it has not read, and leaves it undisturbed. -/
theorem undisturbed_step (h : Undisturbed dumps d (lastRead i log) s (.cmd c k)) :
    Unraced i c s log ∧ ∀ r s', query c s = some (r, s') →
      Undisturbed dumps d (lastRead i (log ++ [(i, ⟨c, r⟩)])) s' (k r) := by
  have hquiet : (∀ r s', query c s = some (r, s') → s'.output = s.output) → Unraced i c s log :=
    fun hsame r s' hquery hne ↦ (hne (hsame r s' hquery)).elim
  generalize hcmd : Proc.cmd c k = rest at h
  cases h with
  | start =>
    cases hcmd
    refine ⟨hquiet fun r s' hquery ↦ by cases hquery; rfl, fun r s' hquery ↦ ?_⟩
    cases hquery
    dsimp only
    split_ifs
    · exact .readRow
    · exact .returned false
  | readRow =>
    cases hcmd
    refine ⟨hquiet fun r s' hquery ↦ by cases hquery; rfl, fun r s' hquery ↦ ?_⟩
    cases hquery
    rw [lastRead_append, if_pos rfl]
    dsimp only
    by_cases hrow : s.row = none
    · rw [hrow]
      exact .readHistory hrow
    · obtain ⟨row, hrow⟩ := Option.ne_none_iff_exists'.mp hrow
      rw [hrow]
      exact undisturbed_decideOn (by simp [Stored.output, hrow])
  | readHistory hrow =>
    cases hcmd
    refine ⟨hquiet fun r s' hquery ↦ by cases hquery; rfl, fun r s' hquery ↦ ?_⟩
    cases hquery
    rw [lastRead_append, if_pos rfl]
    by_cases hhistory : s.history = none
    · rw [hhistory]
      exact .returned false
    · obtain ⟨history, hhistory⟩ := Option.ne_none_iff_exists'.mp hhistory
      rw [hhistory]
      exact undisturbed_decideOn (by simp [Stored.output, hrow, hhistory])
  | @write base output _ hread houtput hmem =>
    simp only [List.mem_cons, List.not_mem_nil, or_false] at hmem
    rcases hmem with rfl | rfl | rfl | rfl
    · cases hcmd
      refine ⟨hquiet fun r s' hquery ↦ by cases hquery; rfl, fun r s' hquery ↦ ?_⟩
      cases hquery
      rw [lastRead_append, if_pos rfl]
      dsimp only
      split_ifs
      · exact .write hread houtput (by simp)
      · exact .returned true
    · cases hcmd
      have hafter : ({ s with history := some output } : Stored F).output = s.output ∨
          ({ s with history := some output } : Stored F).output = output := by
        by_cases hrow : s.row = none
        · exact Or.inr (by simp [Stored.output, hrow])
        · obtain ⟨row, hrow⟩ := Option.ne_none_iff_exists'.mp hrow
          exact Or.inl (by simp [Stored.output, hrow])
      refine ⟨fun r s' hquery hne ↦ ?_, fun r s' hquery ↦ ?_⟩
      · cases hquery
        have houtput' := hafter.resolve_left hne
        rw [hread, houtput.resolve_right fun he ↦ hne (houtput'.trans he.symm)]
      · cases hquery
        rw [lastRead_append, if_pos rfl]
        exact .write hread (hafter.elim (fun he ↦ he ▸ houtput) Or.inr) (by simp)
    · cases hcmd
      refine ⟨hquiet fun r s' hquery ↦ by cases hquery; rfl, fun r s' hquery ↦ ?_⟩
      cases hquery
      rw [lastRead_append, if_pos rfl]
      exact .write hread houtput (by simp)
    · cases hcmd
      refine ⟨fun r s' hquery hne ↦ ?_, fun r s' hquery ↦ ?_⟩
      · cases hquery
        rw [hread, houtput.resolve_right fun he ↦ hne he.symm]
      · exact .returned true
  | returned answer => cases hcmd

/-- Each request starts and takes some steps, and then the next does. -/
def inTurn : ℕ → List (Decision F × ℕ) → List (Turn (Decision F))
  | _, [] => []
  | n, (d, steps) :: ds => .start d :: (List.replicate steps (.resume n) ++ inTurn (n + 1) ds)

theorem along_resume {p : Pool (Stored F) (Query F) QueryResult Bool (Decision F)} {n : ℕ}
    {rest : Proc (Query F) QueryResult Bool} {more : List (Turn (Decision F))}
    (hthread : p.threads[n]? = some ⟨d, rest⟩) (hrest : Undisturbed dumps d (lastRead n p.log) p.store rest)
    (hmore : ∀ q : Pool (Stored F) (Query F) QueryResult Bool (Decision F),
      q.threads.length = p.threads.length → Along query (resolveToolCallOutput dumps) (Taking Unraced) q more)
    (steps : ℕ) : Along query (resolveToolCallOutput dumps) (Taking Unraced) p
      (List.replicate steps (.resume n) ++ more) := by
  induction steps generalizing p rest with
  | zero => exact hmore p rfl
  | succ steps ih =>
    rw [List.replicate_succ, List.cons_append]
    cases rest with
    | ret answer =>
      have hstep : step query (resolveToolCallOutput dumps) p (.resume n) = p := by
        simp only [step, hthread]
      refine along_cons (fun op c k hcmd ↦ ?_) ?_
      · rw [hthread] at hcmd
        cases hcmd
      · rw [hstep]
        exact ih hthread hrest hmore
    | cmd c k =>
      obtain ⟨hunraced, hnext⟩ := undisturbed_step hrest
      refine along_cons (fun op c' k' hcmd ↦ ?_) ?_
      · rw [hthread] at hcmd
        cases hcmd
        exact hunraced
      · obtain ⟨r, s', hquery⟩ : ∃ r s', query c p.store = some (r, s') := by
          cases c <;> exact ⟨_, _, rfl⟩
        rw [step_resume hthread hquery]
        refine ih (getElem?_commit_self hthread d c r s' (k r)) (hnext r s' hquery) fun q hq ↦ hmore q ?_
        rw [hq]
        unfold commit
        rw [List.length_set]

/-- Requests that are carried out one after the other write only over what they have read. -/
theorem along_inTurn (dumps : Json F → PyStr) (ds : List (Decision F × ℕ))
    (p : Pool (Stored F) (Query F) QueryResult Bool (Decision F)) :
    Along query (resolveToolCallOutput dumps) (Taking Unraced) p (inTurn p.threads.length ds) := by
  induction ds generalizing p with
  | nil => exact along_nil _ p
  | cons first ds ih =>
    obtain ⟨d, steps⟩ := first
    have hthread : (p.start d (resolveToolCallOutput dumps d)).threads[p.threads.length]? =
        some ⟨d, resolveToolCallOutput dumps d⟩ := by
      unfold start
      simp
    refine along_cons trivial (along_resume hthread ?_ (fun q hq ↦ ?_) steps)
    · rw [resolveToolCallOutput_eq]
      exact .start
    · have hlength : q.threads.length = p.threads.length + 1 := by
        rw [hq]
        unfold start
        simp
      rw [← hlength]
      exact ih q

section

local instance callFloats : Runtime FloatLit := @Sop.textRuntime asciiTables

def pendingCall (call_id : PyStr) : Json FloatLit :=
  .obj [(py "type", .str (py "function_call")), (py "call_id", .str call_id),
    (py "name", .str (py "run_python")), (py "status", .str (py "pending"))]

/-- A message with two calls that wait. -/
def twoCalls : Stored FloatLit :=
  ⟨some (py "ann"), some (.arr [pendingCall (py "a"), pendingCall (py "b")]), none⟩

def rejects (call_id : PyStr) : Decision FloatLit := ⟨py "ann", false, ⟨call_id, .reject, none, false⟩⟩

/-- One call is rejected, and then the other. -/
theorem decisions_kept_twoCalls :
    let p := run query (resolveToolCallOutput fun _ ↦ []) (idle twoCalls)
      (inTurn 0 [(rejects (py "a"), 6), (rejects (py "b"), 6)])
    (∀ t ∈ p.threads, t.rest = .ret true → reflected t.op.form_data p.store.output = true) ∧
      ∀ call_id, resultsIn call_id p.store.output ≤ max 1 (resultsIn call_id twoCalls.output) :=
  decisions_kept (fun _ ↦ []) twoCalls _
    (along_inTurn (fun _ ↦ []) [(rejects (py "a"), 6), (rejects (py "b"), 6)] (idle twoCalls))

/-- Both calls are rejected, and each request reads before the other writes. -/
def overlapping : List (Turn (Decision FloatLit)) :=
  [.start (rejects (py "a")), .resume 0, .resume 0, .start (rejects (py "b")), .resume 1, .resume 1,
    .resume 0, .resume 0, .resume 0, .resume 0, .resume 1, .resume 1, .resume 1, .resume 1]

def returnedTrue : Proc (Query FloatLit) QueryResult Bool → Bool
  | .ret answer => answer
  | .cmd _ _ => false

theorem eq_ret_of_returnedTrue {rest : Proc (Query FloatLit) QueryResult Bool}
    (h : returnedTrue rest = true) : rest = .ret true := by
  cases rest with
  | ret answer => exact congrArg Proc.ret h
  | cmd c k => cases h

/-- Both requests return, and the rejection of the first call is lost. -/
theorem overlapping_loses : ¬ ∀ t ∈ (run query (resolveToolCallOutput fun _ ↦ []) (idle twoCalls) overlapping).threads,
    t.rest = .ret true → reflected t.op.form_data
      (run query (resolveToolCallOutput fun _ ↦ []) (idle twoCalls) overlapping).store.output = true := by
  intro hall
  have hlost : (run query (resolveToolCallOutput fun _ ↦ []) (idle twoCalls) overlapping).threads.any (fun t ↦
      returnedTrue t.rest && !reflected t.op.form_data
        (run query (resolveToolCallOutput fun _ ↦ []) (idle twoCalls) overlapping).store.output) = true := by
    decide
  obtain ⟨t, ht, hboth⟩ := List.any_eq_true.mp hlost
  rw [Bool.and_eq_true, Bool.not_eq_true'] at hboth
  rw [hall t ht (eq_ret_of_returnedTrue hboth.1)] at hboth
  cases hboth.2

end

end FourCE.Chats

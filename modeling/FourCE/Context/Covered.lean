import FourCE.Context.Compaction
import Mathlib.Data.List.Induction

/-!
# What a summary stands for

Every summary on a message of the branch stands for all messages before it: each was among those that
were summarised then, or stands in the summary that was given along.  A compaction keeps this as long as
its summary does not go to a message after the first one it keeps.
-/

namespace FourCE.Context

open FourCE.Python

/-- The message was summarised for this summary, or for one that it was built on. -/
inductive Covered (calls : List (Call × PyStr)) : PyStr → PyStr → Prop
  | now {call : Call} {summary key : PyStr} (h : (call, summary) ∈ calls)
      (hkey : key ∈ call.compacted.map Message.key) : Covered calls summary key
  | before {call : Call} {summary previous key : PyStr} (h : (call, summary) ∈ calls)
      (hprevious : call.previous = some previous) (hkey : Covered calls previous key) :
      Covered calls summary key

theorem Covered.mono {calls : List (Call × PyStr)} {summary key : PyStr}
    (h : Covered calls summary key) (more : List (Call × PyStr)) :
    Covered (calls ++ more) summary key := by
  induction h with
  | now h hkey => exact .now (List.mem_append_left _ h) hkey
  | before h hprevious _ ih => exact .before (List.mem_append_left _ h) hprevious ih

/-! ## The checkpoint in force -/

/-- Either no message has a summary, or the last one that has is the first kept. -/
theorem applyLatestSummaryCheckpoint_cases (messages : List Message) :
    (applyLatestSummaryCheckpoint messages = (messages, none) ∧ ∀ m ∈ messages, summaryOf m = none) ∨
      ∃ before m after summary, messages = before ++ m :: after ∧ summaryOf m = some summary ∧
        (∀ m' ∈ after, summaryOf m' = none) ∧
        applyLatestSummaryCheckpoint messages = (m :: after, some summary) := by
  induction messages with
  | nil => exact Or.inl ⟨rfl, by simp⟩
  | cons m ms ih =>
    rcases ih with ⟨heq, hnone⟩ | ⟨before, m', after, summary, rfl, hm', hafter, heq⟩
    · rcases hm : summaryOf m with _ | summary
      · refine Or.inl ⟨by simp only [applyLatestSummaryCheckpoint, heq, hm], fun x hx ↦ ?_⟩
        rcases List.mem_cons.mp hx with rfl | hx
        · exact hm
        · exact hnone x hx
      · exact Or.inr ⟨[], m, ms, summary, rfl, hm, hnone,
          by simp only [applyLatestSummaryCheckpoint, heq, hm]⟩
    · exact Or.inr ⟨m :: before, m', after, summary, rfl, hm', hafter,
        by simp only [applyLatestSummaryCheckpoint, heq]⟩

/-- The messages that a request leaves out. -/
def leftOut (branch : List Message) : List Message :=
  branch.take (branch.length - (applyLatestSummaryCheckpoint branch).1.length)

theorem leftOut_append (branch : List Message) :
    leftOut branch ++ (applyLatestSummaryCheckpoint branch).1 = branch := by
  unfold leftOut
  rcases applyLatestSummaryCheckpoint_cases branch with ⟨heq, -⟩ | ⟨before, m, after, _, hsplit, -, -, heq⟩
  · simp [heq]
  · rw [heq, hsplit]
    simp

/-! ## What a request and a command do -/

theorem findCompactionBoundary_cases (messages : List Message) (percentage : ℕ) :
    findCompactionBoundary messages percentage = 0 ∨
      findCompactionBoundary messages percentage ∈ userPositions messages := by
  unfold findCompactionBoundary
  dsimp only
  rcases hfind : List.find? _ ((userPositions messages).drop 1).reverse with _ | i
  · exact Or.inl rfl
  · exact Or.inr (List.mem_of_mem_drop (List.mem_reverse.mp (List.mem_of_find?_eq_some hfind)))

theorem isUser_of_mem_userPositions {messages : List Message} {i : ℕ} {m : Message}
    (hi : i ∈ userPositions messages) (hm : messages[i]? = some m) : isUser m = true := by
  unfold userPositions at hi
  obtain ⟨⟨m', i'⟩, he, rfl⟩ := List.mem_map.mp hi
  obtain ⟨hzip, huser⟩ := List.mem_filter.mp he
  have hget : messages[i']? = some m' := List.mem_zipIdx_iff_getElem?.mp hzip
  have hsame : m' = m := Option.some.inj (hget.symm.trans hm)
  exact hsame ▸ huser

/-- What a request starts from: the messages from the checkpoint on, and the summary. -/
def fromCheckpoint (messages : List Message) : List Message × Option PyStr :=
  applyLatestSummaryCheckpoint (splitSystem messages).2

/-- A request that compacts cuts off messages before one of the user's. -/
structure Cut (metadata : Metadata) (messages : List Message) (boundary : ℕ) (first : Message)
    (rest : List Message) (summary : PyStr) (r : Compacted) : Prop where
  split : (fromCheckpoint messages).1.drop boundary = first :: rest
  user : isUser first = true
  result : r.messages = (splitSystem messages).1 ++ first :: rest
  call : r.call = some (⟨(fromCheckpoint messages).1.take boundary, first :: rest,
    (fromCheckpoint messages).2⟩, summary)
  checkpoint : ∀ checkpoint, r.checkpoint = some checkpoint →
    checkpointId first metadata = some checkpoint.1 ∧ checkpoint.2 = summary

variable {config : Config} {metadata : Metadata} {reply : Call → Option PyStr} {system_prompt : PyStr}
  {messages : List Message} {r : Compacted}

theorem request_cases
    (h : compactMessagesForRequest config metadata reply system_prompt messages = some r) :
    (r.call = none ∧ r.checkpoint = none ∧ (config.enable = false ∧ r.messages = messages ∨
        r.messages = (splitSystem messages).1 ++ (fromCheckpoint messages).1)) ∨
      ∃ first rest summary, Cut metadata messages
        (findCompactionBoundary (fromCheckpoint messages).1 config.retention_percentage)
        first rest summary r := by
  have hfrom : fromCheckpoint messages = applyLatestSummaryCheckpoint (splitSystem messages).2 := rfl
  unfold compactMessagesForRequest at h
  rcases hsplit : splitSystem messages with ⟨system_messages, ms⟩
  rcases hkept : applyLatestSummaryCheckpoint ms with ⟨kept, previous_summary⟩
  rw [hsplit, hkept] at hfrom
  simp only [hsplit, hkept, hfrom] at h ⊢
  by_cases henable : (!config.enable) = true
  · rw [if_pos henable] at h
    cases h
    exact Or.inl ⟨rfl, rfl, Or.inl ⟨by simpa using henable, rfl⟩⟩
  rw [if_neg henable] at h
  by_cases hshort : (!exceedsTokenThreshold kept system_prompt previous_summary
      (resolveTokenThreshold config metadata)) = true ∨ kept.length ≤ 3
  · rw [if_pos hshort] at h
    cases h
    exact Or.inl ⟨rfl, rfl, Or.inr rfl⟩
  · rw [if_neg hshort] at h
    split at h
    · next m compacted first rest htake hdrop =>
      obtain ⟨summary, -, rfl⟩ := Option.map_eq_some_iff.mp h
      refine Or.inr ⟨first, rest, summary, ?_, ?_, ?_, ?_, fun checkpoint hcheckpoint ↦ ?_⟩
      · rw [hfrom]
        exact hdrop
      · rcases findCompactionBoundary_cases kept config.retention_percentage with hzero | hmem
        · rw [hzero] at htake
          cases htake
        · refine isUser_of_mem_userPositions hmem ?_
          rw [← List.head?_drop, hdrop]
          rfl
      · rw [hsplit]
      · rw [hfrom, htake]
      · dsimp only at hcheckpoint
        split_ifs at hcheckpoint
        obtain ⟨id, hid, rfl⟩ := Option.map_eq_some_iff.mp hcheckpoint
        exact ⟨(Option.filter_eq_some_iff.mp hid).1, rfl⟩
    · cases h
      exact Or.inl ⟨rfl, rfl, Or.inr rfl⟩

/-- A command that compacts leaves the last message of the branch. -/
theorem command_cases {branch : List Message} (h : compactChatBranch config reply branch = some r) :
    (r.call = none ∧ r.checkpoint = none) ∨ ∃ older last summary,
      (applyLatestSummaryCheckpoint branch).1 = older ++ [last] ∧
      r.call = some (⟨older, [last], (applyLatestSummaryCheckpoint branch).2⟩, summary) ∧
      r.checkpoint = some (last.key, summary) := by
  unfold compactChatBranch at h
  rcases hkept : applyLatestSummaryCheckpoint branch with ⟨kept, previous_summary⟩
  simp only [hkept] at h
  by_cases henable : (!config.enable) = true
  · rw [if_pos henable] at h
    cases h
    exact Or.inl ⟨rfl, rfl⟩
  · rw [if_neg henable] at h
    split at h
    · next first rest last hdrop hlast =>
      obtain ⟨summary, -, rfl⟩ := Option.map_eq_some_iff.mp h
      have hne : kept ≠ [] := fun he ↦ by simp [he] at hlast
      have hgetLast : kept.getLast hne = last := by
        rw [List.getLast?_eq_some_getLast hne] at hlast
        exact Option.some.inj hlast
      refine Or.inr ⟨first :: rest, last, summary, ?_, rfl, rfl⟩
      rw [← hdrop, ← hgetLast, List.dropLast_append_getLast]
    · cases h
      exact Or.inl ⟨rfl, rfl⟩

/-! ## Branches in which every summary stands for what is before it -/

structure Sound (s : State) : Prop where
  nodup : (s.branch.map Message.key).Nodup
  single : ∀ m ∈ s.branch, m.context_summary = none
  covered : ∀ before m after summary, s.branch = before ++ m :: after → summaryOf m = some summary →
    ∀ x ∈ before, Covered s.calls summary x.key

variable {s : State}

theorem Sound.leftOut (h : Sound s) {x : Message} (hx : x ∈ leftOut s.branch) : ∃ summary,
    (applyLatestSummaryCheckpoint s.branch).2 = some summary ∧ Covered s.calls summary x.key := by
  have hsplit := leftOut_append s.branch
  rcases applyLatestSummaryCheckpoint_cases s.branch with
    ⟨heq, -⟩ | ⟨before, m, after, summary, hbranch, hm, -, heq⟩
  · rw [heq] at hsplit
    have hnil : Context.leftOut s.branch = [] := by simpa using hsplit
    rw [hnil] at hx
    cases hx
  · rw [heq, hbranch] at hsplit
    have hbefore : Context.leftOut s.branch = before := by
      rw [hbranch]
      exact List.append_cancel_right hsplit
    refine ⟨summary, by rw [heq], h.covered before m after summary hbranch hm x ?_⟩
    exact hbefore ▸ hx

theorem summaryOf_none {m : Message} (h : m.contextSummary = none) (h' : m.context_summary = none) :
    summaryOf m = none := by
  unfold summaryOf orElse
  rw [h, h']
  rfl

/-- A turn adds messages without summaries. -/
theorem Sound.turn (h : Sound s) {messages : List Message}
    (hnodup : ((s.branch ++ messages).map Message.key).Nodup)
    (hnone : ∀ m ∈ messages, m.contextSummary = none ∧ m.context_summary = none) :
    Sound { s with branch := s.branch ++ messages } := by
  refine ⟨hnodup, fun m hm ↦ ?_, fun before m after summary hsplit hsummary x hx ↦ ?_⟩
  · rcases List.mem_append.mp hm with hold | hnew
    · exact h.single m hold
    · exact (hnone m hnew).2
  · rcases List.append_eq_append_iff.mp hsplit with ⟨pre, rfl, hmessages⟩ | ⟨post, hbranch, hrest⟩
    · have hm : m ∈ messages := by
        rw [hmessages]
        exact List.mem_append_right _ List.mem_cons_self
      rw [summaryOf_none (hnone m hm).1 (hnone m hm).2] at hsummary
      cases hsummary
    · cases post with
      | nil =>
        have hmessages : m :: after = messages := hrest
        have hm : m ∈ messages := hmessages ▸ List.mem_cons_self
        rw [summaryOf_none (hnone m hm).1 (hnone m hm).2] at hsummary
        cases hsummary
      | cons m' post =>
        rw [List.cons_append] at hrest
        obtain ⟨rfl, rfl⟩ := List.cons.inj hrest
        exact h.covered before m post summary hbranch hsummary x hx

theorem Sound.calls (h : Sound s) (more : List (Call × PyStr)) :
    Sound { s with calls := s.calls ++ more } :=
  ⟨h.nodup, h.single, fun before m after summary hsplit hsummary x hx ↦
    (h.covered before m after summary hsplit hsummary x hx).mono more⟩

theorem summaryOf_stored {m : Message} {summary : PyStr} (h : m.context_summary = none) {value : PyStr}
    (hvalue : summaryOf { m with contextSummary := some summary } = some value) : value = summary := by
  unfold summaryOf orElse at hvalue
  rw [h] at hvalue
  obtain ⟨hsome, -⟩ := Option.filter_eq_some_iff.mp hvalue
  split_ifs at hsome
  exact (Option.some.inj hsome).symm

/-- A summary is stored on a message, and what is before it was left out or summarised for it. -/
theorem Sound.store (h : Sound s) {call : Call} {summary key : PyStr}
    (hprevious : call.previous = (applyLatestSummaryCheckpoint s.branch).2)
    (hplace : ∀ before m after, s.branch = before ++ m :: after → m.key = key →
      ∀ x ∈ before, x ∈ Context.leftOut s.branch ∨ x ∈ call.compacted) :
    Sound ⟨storeCheckpoint s.branch (key, summary), s.calls ++ [(call, summary)]⟩ := by
  have hcall : (call, summary) ∈ s.calls ++ [(call, summary)] :=
    List.mem_append_right _ (List.mem_singleton_self _)
  have hkey : ∀ m : Message, (if m.key = key then { m with contextSummary := some summary } else m).key =
      m.key := fun m ↦ by split_ifs <;> rfl
  refine ⟨?_, fun m hm ↦ ?_, fun before m after value hsplit hvalue x hx ↦ ?_⟩
  · show ((storeCheckpoint s.branch (key, summary)).map Message.key).Nodup
    unfold storeCheckpoint
    rw [List.map_map]
    simpa only [Function.comp_def, hkey] using h.nodup
  · obtain ⟨old, hold, rfl⟩ := List.mem_map.mp hm
    have hnone := h.single old hold
    split_ifs
    · exact hnone
    · exact hnone
  · obtain ⟨before', rest, hbranch, rfl, hrest⟩ := List.map_eq_append_iff.mp hsplit
    obtain ⟨old, after', rfl, rfl, -⟩ := List.map_eq_cons_iff.mp hrest
    obtain ⟨x', hx', rfl⟩ := List.mem_map.mp hx
    show Covered (s.calls ++ [(call, summary)]) value (if x'.key = key then _ else _ : Message).key
    rw [hkey]
    by_cases hold : old.key = key
    · rw [if_pos hold] at hvalue
      have hmem : old ∈ s.branch := by
        rw [hbranch]
        exact List.mem_append_right _ List.mem_cons_self
      rw [summaryOf_stored (h.single old hmem) hvalue]
      rcases hplace before' old after' hbranch hold x' hx' with hout | hin
      · obtain ⟨previous, hprev, hcovered⟩ := h.leftOut hout
        exact .before hcall (hprevious.trans hprev) (hcovered.mono _)
      · exact .now hcall (List.mem_map_of_mem hin)
    · rw [if_neg hold] at hvalue
      exact (h.covered before' old after' value hbranch hvalue x' hx').mono _

/-! ## Runs -/

/-- The message that the checkpoint goes to, if it is one of the branch, is not after the first one that
is kept. -/
def Placed (config : Config) (metadata : Metadata) (branch : List Message) : Prop :=
  ∀ first, (applyLatestSummaryCheckpoint branch).1[findCompactionBoundary
      (applyLatestSummaryCheckpoint branch).1 config.retention_percentage]? = some first →
    ∀ before m after, branch = before ++ m :: after → checkpointId first metadata = some m.key →
      before.length ≤ (leftOut branch).length +
        findCompactionBoundary (applyLatestSummaryCheckpoint branch).1 config.retention_percentage

/-- Turns add new messages without summaries; a request's system message is not one of the branch, and
its checkpoint is placed. -/
def Allowed (s : State) : Event → Prop
  | .turn messages => ((s.branch ++ messages).map Message.key).Nodup ∧
      ∀ m ∈ messages, m.contextSummary = none ∧ m.context_summary = none
  | .request config metadata _ system_message _ =>
      (splitSystem (system_message.toList ++ s.branch)).2 = s.branch ∧ Placed config metadata s.branch
  | .command _ _ => True

def AllAllowed (s : State) : List Event → Prop
  | [] => True
  | event :: events => Allowed s event ∧ AllAllowed (step s event) events

theorem position_unique {branch : List Message} (hnodup : (branch.map Message.key).Nodup) {i j : ℕ}
    {m m' : Message} (hi : branch[i]? = some m) (hj : branch[j]? = some m') (hkey : m.key = m'.key) :
    i = j := by
  have hkeys : (branch.map Message.key)[i]? = (branch.map Message.key)[j]? := by
    rw [List.getElem?_map, List.getElem?_map, hi, hj, Option.map_some, Option.map_some, hkey]
  have hlt : i < (branch.map Message.key).length := by
    rw [List.length_map]
    exact (List.getElem?_eq_some_iff.mp hi).choose
  exact (List.getElem?_inj hlt hnodup).mp hkeys

/-- A first kept message that carries its own id gets the checkpoint itself. -/
theorem placed_of_id {branch : List Message} (hnodup : (branch.map Message.key).Nodup)
    (hid : ∀ m ∈ branch, m.id = some m.key ∧ m.key ≠ []) (config : Config) (metadata : Metadata) :
    Placed config metadata branch := by
  intro first hfirst before m after hbranch hcheckpoint
  have hsplit := leftOut_append branch
  set boundary := findCompactionBoundary (applyLatestSummaryCheckpoint branch).1
    config.retention_percentage
  have hget : (leftOut branch ++ (applyLatestSummaryCheckpoint branch).1)[(leftOut branch).length +
      boundary]? = some first := by
    rw [List.getElem?_append_right (Nat.le_add_right _ _), Nat.add_sub_cancel_left, hfirst]
  rw [hsplit] at hget
  have hkey : first.key = m.key := by
    obtain ⟨hfirstId, hne⟩ := hid first (List.mem_of_getElem? hget)
    unfold checkpointId orElse at hcheckpoint
    rw [hfirstId] at hcheckpoint
    simpa [hne] using hcheckpoint
  have hm : branch[before.length]? = some m := by
    rw [hbranch]
    simp
  exact le_of_eq (position_unique hnodup hm hget hkey.symm)

theorem after_unstored (s : State) (hcheckpoint : r.checkpoint = none) :
    s.after (some r) = { s with calls := s.calls ++ r.call.toList } := by
  unfold State.after
  simp only [hcheckpoint]

theorem after_stored (s : State) {call : Call × PyStr} {checkpoint : PyStr × PyStr}
    (hcall : r.call = some call) (hcheckpoint : r.checkpoint = some checkpoint) :
    s.after (some r) = ⟨storeCheckpoint s.branch checkpoint, s.calls ++ [call]⟩ := by
  unfold State.after
  simp only [hcheckpoint, hcall, Option.toList_some]

theorem Sound.request (h : Sound s) {system_message : Option Message}
    (hfront : (splitSystem (system_message.toList ++ s.branch)).2 = s.branch)
    (hplaced : Placed config metadata s.branch)
    (hr : compactMessagesForRequest config metadata reply system_prompt
      (system_message.toList ++ s.branch) = some r) : Sound (s.after (some r)) := by
  have hfrom : fromCheckpoint (system_message.toList ++ s.branch) =
      applyLatestSummaryCheckpoint s.branch := by
    unfold fromCheckpoint
    rw [hfront]
  rcases request_cases hr with ⟨-, hcheckpoint, -⟩ | ⟨first, rest, summary, hcut⟩
  · rw [after_unstored s hcheckpoint]
    exact h.calls _
  · obtain ⟨hsplit, -, -, hcall, hstored⟩ := hcut
    rw [hfrom] at hsplit hcall
    rcases hcheckpoint : r.checkpoint with _ | ⟨key, stored⟩
    · rw [after_unstored s hcheckpoint]
      exact h.calls _
    · obtain ⟨hkey, rfl⟩ := hstored _ hcheckpoint
      rw [after_stored s hcall hcheckpoint]
      refine h.store rfl fun before m after hbranch hm x hx ↦ ?_
      set boundary := findCompactionBoundary (applyLatestSummaryCheckpoint s.branch).1
        config.retention_percentage with hboundary
      have hfirst : (applyLatestSummaryCheckpoint s.branch).1[boundary]? = some first := by
        rw [← List.head?_drop, hsplit]
        rfl
      have hlength := hplaced first hfirst before m after hbranch (hkey.trans (by rw [hm]))
      -- what is before the checkpoint is before the first message kept
      have hbefore : before <+: s.branch := ⟨m :: after, hbranch.symm⟩
      have hcut : Context.leftOut s.branch ++ (applyLatestSummaryCheckpoint s.branch).1.take boundary <+:
          s.branch := by
        refine ⟨(applyLatestSummaryCheckpoint s.branch).1.drop boundary, ?_⟩
        rw [List.append_assoc, List.take_append_drop, leftOut_append]
      have hlt : boundary < (applyLatestSummaryCheckpoint s.branch).1.length :=
        (List.getElem?_eq_some_iff.mp hfirst).choose
      have hinit := List.prefix_of_prefix_length_le hbefore hcut (by
        rw [List.length_append, List.length_take, min_eq_left (le_of_lt hlt)]
        exact hlength)
      exact List.mem_append.mp (hinit.subset hx)

theorem Sound.command (h : Sound s) (hr : compactChatBranch config reply s.branch = some r) :
    Sound (s.after (some r)) := by
  rcases command_cases hr with ⟨-, hcheckpoint⟩ | ⟨older, last, summary, hkept, hcall, hcheckpoint⟩
  · rw [after_unstored s hcheckpoint]
    exact h.calls _
  · rw [after_stored s hcall hcheckpoint]
    refine h.store rfl fun before m after hbranch hm x hx ↦ ?_
    have hsplit := leftOut_append s.branch
    rw [hkept, ← List.append_assoc] at hsplit
    have hm' : s.branch[before.length]? = some m := by
      rw [hbranch]
      simp
    have hlast : (Context.leftOut s.branch ++ older ++ [last])[(Context.leftOut s.branch ++
        older).length]? = some last := List.getElem?_concat_length
    rw [hsplit] at hlast
    have hlength := position_unique h.nodup hm' hlast hm
    have hbefore := (List.append_inj (hbranch.symm.trans hsplit.symm) hlength).1
    rw [hbefore] at hx
    exact List.mem_append.mp hx

theorem sound_step (h : Sound s) {event : Event} (hevent : Allowed s event) : Sound (step s event) := by
  cases event with
  | turn messages => exact h.turn hevent.1 hevent.2
  | request config metadata reply system_message system_prompt =>
    show Sound (s.after _)
    rcases hr : compactMessagesForRequest config metadata reply system_prompt
      (system_message.toList ++ s.branch) with _ | r
    · exact h
    · exact h.request hevent.1 hevent.2 hr
  | command config reply =>
    show Sound (s.after _)
    rcases hr : compactChatBranch config reply s.branch with _ | r
    · exact h
    · exact h.command hr

theorem sound_foldl (h : Sound s) {events : List Event} (hevents : AllAllowed s events) :
    Sound (events.foldl step s) := by
  induction events generalizing s with
  | nil => exact h
  | cons event events ih => exact ih (sound_step h hevents.1) hevents.2

theorem sound_start : Sound ⟨[], []⟩ :=
  ⟨List.nodup_nil, by simp, fun before m after _ hsplit ↦ by simp at hsplit⟩

/-- After the system message: everything from the checkpoint on, or the end of the branch from one of
the user's messages on. -/
def KeepsRecent (messages : List Message) (r : Compacted) : Prop :=
  ∃ kept, r.messages = (splitSystem messages).1 ++ kept ∧ (kept = (fromCheckpoint messages).1 ∨
    kept <:+ (splitSystem messages).2 ∧ ∃ first rest, kept = first :: rest ∧ isUser first = true ∧
      kept.getLast? = (splitSystem messages).2.getLast?)

theorem request_keepsRecent
    (h : compactMessagesForRequest config metadata reply system_prompt messages = some r) :
    config.enable = false ∧ r.messages = messages ∨ KeepsRecent messages r := by
  rcases request_cases h with ⟨-, -, hoff | hall⟩ | ⟨first, rest, summary, hcut⟩
  · exact Or.inl hoff
  · exact Or.inr ⟨_, hall, Or.inl rfl⟩
  · have hsuffix : first :: rest <:+ (splitSystem messages).2 := by
      refine List.IsSuffix.trans ?_ ⟨_, leftOut_append (splitSystem messages).2⟩
      rw [← hcut.split]
      exact List.drop_suffix _ _
    refine Or.inr ⟨first :: rest, hcut.result, Or.inr ⟨hsuffix, first, rest, rfl, hcut.user, ?_⟩⟩
    obtain ⟨before, hbefore⟩ := hsuffix
    rw [← hbefore, List.getLast?_append_cons]

/-- What the next request leaves out was summarised, for the summary in force or for one it was built
on; and a request keeps what it does not summarise. -/
theorem no_message_dropped {events : List Event} (h : AllAllowed ⟨[], []⟩ events) :
    (∀ x ∈ leftOut (run events).branch, ∃ summary,
        (applyLatestSummaryCheckpoint (run events).branch).2 = some summary ∧
          Covered (run events).calls summary x.key) ∧
      ∀ config metadata reply system_prompt messages r,
        compactMessagesForRequest config metadata reply system_prompt messages = some r →
        config.enable = false ∧ r.messages = messages ∨ KeepsRecent messages r :=
  ⟨fun _ hx ↦ (sound_foldl sound_start h).leftOut hx,
    fun _ _ _ _ _ _ hr ↦ request_keepsRecent hr⟩

/-! ### Messages without ids -/

def exampleMessage (labelled : Bool) (key role : PyStr) : Message :=
  ⟨key, if labelled then some key else none, role, py "text", none, none, 0, 100⟩

/-- Four questions of the user's and the answers to three. -/
def fourQuestions (labelled : Bool) : List Message :=
  [exampleMessage labelled (py "0") (py "user"), exampleMessage labelled (py "1") (py "assistant"),
    exampleMessage labelled (py "2") (py "user"), exampleMessage labelled (py "3") (py "assistant"),
    exampleMessage labelled (py "4") (py "user"), exampleMessage labelled (py "5") (py "assistant"),
    exampleMessage labelled (py "6") (py "user")]

/-- The turns, and a request that compacts them. -/
def compactOnce (labelled : Bool) : List Event :=
  [.turn (fourQuestions labelled),
    .request ⟨true, 10, 10, 40⟩ ⟨true, some (py "6"), some (py "7"), none⟩ (fun _ ↦ some (py "s")) none []]

theorem no_message_dropped_compactOnce :
    (∀ x ∈ leftOut (run (compactOnce true)).branch, ∃ summary,
        (applyLatestSummaryCheckpoint (run (compactOnce true)).branch).2 = some summary ∧
          Covered (run (compactOnce true)).calls summary x.key) ∧
      ∀ config metadata reply system_prompt messages r,
        compactMessagesForRequest config metadata reply system_prompt messages = some r →
        config.enable = false ∧ r.messages = messages ∨ KeepsRecent messages r := by
  apply no_message_dropped
  have hnodup : ((fourQuestions true).map Message.key).Nodup := by decide
  have hnone : ∀ m ∈ fourQuestions true, m.contextSummary = none ∧ m.context_summary = none := by
    decide
  have hid : ∀ m ∈ fourQuestions true, m.id = some m.key ∧ m.key ≠ [] := by decide
  exact ⟨⟨hnodup, hnone⟩, ⟨rfl, placed_of_id hnodup hid _ _⟩, trivial⟩

/-- The checkpoint went to the last question, and the question before it was not summarised. -/
theorem unlabelled_message_dropped : ∃ x ∈ leftOut (run (compactOnce false)).branch,
    ¬ ∃ summary, (applyLatestSummaryCheckpoint (run (compactOnce false)).branch).2 = some summary ∧
      Covered (run (compactOnce false)).calls summary x.key := by
  have hcalls : (run (compactOnce false)).calls.map (fun c ↦
      (c.1.compacted.map Message.key, c.1.previous)) =
        [([py "0", py "1", py "2", py "3"], none)] := by decide
  have hout : py "4" ∈ (leftOut (run (compactOnce false)).branch).map Message.key := by
    decide
  obtain ⟨x, hx, hkey⟩ := List.mem_map.mp hout
  have honly : ∀ c ∈ (run (compactOnce false)).calls,
      c.1.compacted.map Message.key = [py "0", py "1", py "2", py "3"] ∧ c.1.previous = none := by
    intro c hc
    have hmem := List.mem_map_of_mem (f := fun c : Call × PyStr ↦
      (c.1.compacted.map Message.key, c.1.previous)) hc
    rw [hcalls, List.mem_singleton] at hmem
    exact Prod.ext_iff.mp hmem
  refine ⟨x, hx, ?_⟩
  rintro ⟨summary, -, hcovered⟩
  rw [hkey] at hcovered
  cases hcovered with
  | now h hin =>
    rw [(honly _ h).1] at hin
    exact absurd hin (by decide)
  | before h hprevious _ =>
    rw [(honly _ h).2] at hprevious
    cases hprevious

end FourCE.Context

import FourCE.Python.Shlex

/-!
# Pipelines of commands

`_parse_pipeline` of `tools/knowledge_fs.py`: a command is cut at the pipes outside quotes, and each of its
parts is split into tokens.
-/

namespace FourCE.Knowledge

open FourCE.Python

/-- What the loop over the characters changes. -/
structure PipeState where
  segments : List PyStr
  buf : PyStr
  inSingle : Bool
  inDouble : Bool

/-- One character of the command. -/
def pipeStep (s : PipeState) (ch : CodePoint) : PipeState :=
  if ch = 39 && !s.inDouble then { s with buf := s.buf ++ [ch], inSingle := !s.inSingle }
  else if ch = 34 && !s.inSingle then { s with buf := s.buf ++ [ch], inDouble := !s.inDouble }
  else if ch = 124 && !s.inSingle && !s.inDouble then { s with segments := s.segments ++ [strip s.buf], buf := [] }
  else { s with buf := s.buf ++ [ch] }

/-- The segments with what is left behind the last pipe. -/
def PipeState.close (s : PipeState) : List PyStr :=
  let remaining := strip s.buf
  if remaining.isEmpty then s.segments else s.segments ++ [remaining]

/-- The segments of a command. -/
def pipeSegments (command : PyStr) : List PyStr := (command.foldl pipeStep ⟨[], [], false, false⟩).close

/-- The tokens of a segment, if it has any. -/
def segmentTokens (seg : PyStr) : Option (List PyStr) :=
  if seg.isEmpty then none
  else
    -- A segment with malformed quotes is split at white space.
    let tokens := (shlexSplit seg).getD (words seg)
    if tokens.isEmpty then none else some tokens

/-- `_parse_pipeline(command)`. -/
def parsePipeline (command : PyStr) : List (List PyStr) := (pipeSegments command).filterMap segmentTokens

/-- A command with its tokens quoted. -/
def commandText (tokens : List PyStr) : PyStr := join (py " ") (tokens.map shlexQuote)

/-- Quoted commands with pipes between them. -/
def pipelineText (commands : List (List PyStr)) : PyStr := join (py " | ") (commands.map commandText)

/-! ## Cutting at pipes -/

/-- A text that the loop takes up whole and behind which it is outside quotes. -/
def Whole (t : PyStr) : Prop :=
  ∀ segments buf, t.foldl pipeStep ⟨segments, buf, false, false⟩ = ⟨segments, buf ++ t, false, false⟩

theorem whole_nil : Whole [] := by
  intro segments buf
  rw [List.foldl_nil, List.append_nil]

theorem Whole.append {s t : PyStr} (hs : Whole s) (ht : Whole t) : Whole (s ++ t) := by
  intro segments buf
  rw [List.foldl_append, hs, ht, List.append_assoc]

theorem whole_singleton {c : CodePoint} (hc : c ∉ py "'\"|") : Whole [c] := by
  intro segments buf
  obtain ⟨hsingle, hdouble, hpipe⟩ : c ≠ 39 ∧ c ≠ 34 ∧ c ≠ 124 :=
    ⟨fun h ↦ hc (by rw [h]; decide), fun h ↦ hc (by rw [h]; decide),
      fun h ↦ hc (by rw [h]; decide)⟩
  simp [pipeStep, hsingle, hdouble, hpipe]

theorem whole_safe {s : PyStr} (hs : ∀ c ∈ s, isSafe c = true) : Whole s := by
  induction s with
  | nil => exact whole_nil
  | cons c s ih =>
    refine Whole.append (s := [c]) (whole_singleton fun hc ↦ ?_) (ih fun d hd ↦ hs d (List.mem_cons_of_mem c hd))
    have hmarks : (py "'\"|").all (fun d ↦ !isSafe d) = true := by decide
    have hunsafe := List.all_eq_true.mp hmarks c hc
    rw [hs c List.mem_cons_self] at hunsafe
    cases hunsafe

/-- Inside single quotes pipes are taken up as well. -/
theorem foldl_single (s : PyStr) (segments : List PyStr) (buf : PyStr) :
    (s.flatMap fun c ↦ if c = 39 then py "'\"'\"'" else [c]).foldl pipeStep ⟨segments, buf, true, false⟩ =
      ⟨segments, buf ++ s.flatMap fun c ↦ if c = 39 then py "'\"'\"'" else [c], true, false⟩ := by
  induction s generalizing buf with
  | nil => rw [List.flatMap_nil, List.foldl_nil, List.append_nil]
  | cons c s ih =>
    rw [List.flatMap_cons, List.foldl_append]
    by_cases hc : c = 39
    · have hround : (py "'\"'\"'").foldl pipeStep ⟨segments, buf, true, false⟩ =
          ⟨segments, buf ++ py "'\"'\"'", true, false⟩ := by
        change PipeState.mk segments (buf ++ [39] ++ [34] ++ [39] ++ [34] ++ [39]) true false = _
        simp only [List.append_assoc]
        rfl
      rw [if_pos hc, hround, ih, List.append_assoc]
    · rw [if_neg hc, List.foldl_cons, List.foldl_nil]
      have hstep : pipeStep ⟨segments, buf, true, false⟩ c = ⟨segments, buf ++ [c], true, false⟩ := by
        simp [pipeStep, hc]
      rw [hstep, ih, List.append_assoc]

theorem whole_shlexQuote (s : PyStr) : Whole (shlexQuote s) := by
  intro segments buf
  rcases shlexQuote_cases s with ⟨-, hq⟩ | ⟨-, hsafe, hq⟩ | hq
  · rw [hq]
    simp [pipeStep]
  · rw [hq]
    exact whole_safe hsafe segments buf
  · have hopen : pipeStep ⟨segments, buf, false, false⟩ 39 = ⟨segments, buf ++ [39], true, false⟩ := rfl
    rw [hq, List.foldl_cons, List.foldl_append, hopen, foldl_single]
    change PipeState.mk segments (buf ++ [39] ++ _ ++ [39]) false false = _
    simp only [List.append_assoc, List.nil_append, List.cons_append]

theorem whole_commandText (tokens : List PyStr) : Whole (commandText tokens) := by
  unfold commandText
  induction tokens with
  | nil => exact whole_nil
  | cons token tokens ih =>
    cases tokens with
    | nil => exact whole_shlexQuote token
    | cons token' tokens =>
      exact ((whole_shlexQuote token).append (whole_singleton (by decide))).append ih

/-- A command begins and ends with a character of a token. -/
theorem stripped_commandText {tokens : List PyStr} (hne : tokens ≠ []) :
    Stripped (commandText tokens) ∧ commandText tokens ≠ [] := by
  unfold commandText
  induction tokens with
  | nil => exact absurd rfl hne
  | cons token tokens ih =>
    obtain ⟨hstripped, htoken⟩ := stripped_shlexQuote token
    cases tokens with
    | nil => exact ⟨hstripped, htoken⟩
    | cons token' tokens =>
      obtain ⟨hrest, hrest'⟩ := ih (List.cons_ne_nil _ _)
      exact ⟨hstripped.append hrest htoken hrest' (py " "), List.append_ne_nil_of_right_ne_nil _ hrest'⟩

theorem strip_spaced {s : PyStr} (hs : Stripped s) (hne : s ≠ []) {before behind : PyStr}
    (hbefore : ∀ c ∈ before, isWhite c = true) (hbehind : ∀ c ∈ behind, isWhite c = true) :
    strip (before ++ s ++ behind) = s := by
  have hfront : (s ++ behind).dropWhile isWhite = s ++ behind := by
    apply dropWhile_eq_self_of_head
    rw [List.head?_append_of_ne_nil _ hne]
    exact hs.front
  have hself := hs.strip_eq
  rw [strip, dropWhile_eq_self_of_head hs.front] at hself
  rw [strip, List.append_assoc, List.dropWhile_append_of_pos hbefore, hfront, List.reverse_append,
    List.dropWhile_append_of_pos (fun c hc ↦ hbehind c (List.mem_reverse.mp hc)), hself]

/-- Behind a pipe the commands that are left become segments of their own. -/
theorem close_foldl {commands : List (List PyStr)} (hcommands : ∀ tokens ∈ commands, tokens ≠ [])
    (hne : commands ≠ []) (segments : List PyStr) {buf : PyStr} (hbuf : ∀ c ∈ buf, isWhite c = true) :
    ((pipelineText commands).foldl pipeStep ⟨segments, buf, false, false⟩).close =
      segments ++ commands.map commandText := by
  unfold pipelineText
  induction commands generalizing segments buf with
  | nil => exact absurd rfl hne
  | cons tokens commands ih =>
    obtain ⟨hstripped, htext⟩ := stripped_commandText (hcommands tokens List.mem_cons_self)
    have hspaced (behind : PyStr) := @strip_spaced _ hstripped htext _ behind hbuf
    cases commands with
    | nil =>
      have hremaining := hspaced [] (List.forall_mem_nil _)
      rw [List.append_nil] at hremaining
      rw [List.map_singleton, join, whole_commandText, PipeState.close]
      simp only [hremaining, List.isEmpty_iff, htext, if_false]
    | cons tokens' commands =>
      have hjoin : join (py " | ") ((tokens :: tokens' :: commands).map commandText) =
          commandText tokens ++ [32] ++ 124 :: 32 :: join (py " | ") ((tokens' :: commands).map commandText) := by
        rw [List.append_assoc]
        exact List.append_assoc _ _ _
      have hpipe : pipeStep ⟨segments, buf ++ (commandText tokens ++ [32]), false, false⟩ 124 =
          ⟨segments ++ [commandText tokens], [], false, false⟩ := by
        change PipeState.mk (segments ++ [strip _]) [] false false = _
        rw [← List.append_assoc, hspaced [32] (by simp; rfl)]
      have hspace : pipeStep ⟨segments ++ [commandText tokens], [], false, false⟩ 32 =
          ⟨segments ++ [commandText tokens], [32], false, false⟩ := rfl
      rw [hjoin, List.foldl_append, (whole_commandText tokens).append (whole_singleton (by decide)),
        List.foldl_cons, List.foldl_cons, hpipe, hspace,
        ih (fun t ht ↦ hcommands t (List.mem_cons_of_mem _ ht)) (List.cons_ne_nil _ _) _ (by simp; rfl),
        List.append_assoc]
      rfl

theorem segmentTokens_commandText {tokens : List PyStr} (hne : tokens ≠ []) :
    segmentTokens (commandText tokens) = some tokens := by
  have htext := (stripped_commandText hne).2
  have hsplit : shlexSplit (commandText tokens) = some tokens := shlexSplit_join tokens
  rw [segmentTokens, if_neg (by simpa using htext), hsplit, Option.getD_some, if_neg (by simpa using hne)]

/-- Commands of quoted tokens parse as the tokens that they were quoted from. -/
theorem parsePipeline_quoted (commands : List (List PyStr)) (hcommands : ∀ tokens ∈ commands, tokens ≠ []) :
    parsePipeline (pipelineText commands) = commands := by
  by_cases hne : commands = []
  · subst hne
    rfl
  · have hsegments := close_foldl hcommands hne [] (List.forall_mem_nil _)
    rw [parsePipeline, pipeSegments, hsegments, List.nil_append, List.filterMap_map]
    calc
      _ = commands.filterMap some := List.filterMap_congr fun tokens ht ↦
        segmentTokens_commandText (hcommands tokens ht)
      _ = commands := List.filterMap_some

/-- A pipe within quotes and an empty token. -/
theorem parsePipeline_quoted_grep :
    parsePipeline (pipelineText [[py "grep", py "it's a|b"], [py "head", []]]) =
      [[py "grep", py "it's a|b"], [py "head", []]] :=
  parsePipeline_quoted _ (by simp)

end FourCE.Knowledge

import FourCE.Library.RegexSpellings
import FourCE.Python.ReClasses
import FourCE.Python.ReCuts
import FourCE.Templates.Truncation

/-!
# What template variables expand to

The variables are found by patterns whose alternatives are told apart by their first letters behind the
name.  A variable with a number in it expands to what its replacement makes of the number, wherever it
stands behind text without braces.
-/

namespace FourCE.Templates

open FourCE.Library.Regex FourCE.Python

/-! ## The patterns -/

/-- The variables of the prompt; case is ignored by a flag in the pattern. -/
def promptPattern : Pattern :=
  re { ignoreCase := true } (py "\x7b\x7bprompt\x7d\x7d|\x7b\x7bprompt:start:(\\d+)\x7d\x7d|" ++
    py "\x7b\x7bprompt:end:(\\d+)\x7d\x7d|\x7b\x7bprompt:middletruncate:(\\d+)\x7d\x7d") (by decide)

/-- The variables of the messages under the name `MESSAGES`. -/
def messagesPattern : Pattern :=
  re {} (py "(?:\\\x7b\\\x7bMESSAGES(?:\\|(\\w+:\\d+))?\\\x7d\\\x7d|" ++
    py "\\\x7b\\\x7bMESSAGES:START:(\\d+)(?:\\|(\\w+:\\d+))?\\\x7d\\\x7d|" ++
    py "\\\x7b\\\x7bMESSAGES:END:(\\d+)(?:\\|(\\w+:\\d+))?\\\x7d\\\x7d|" ++
    py "\\\x7b\\\x7bMESSAGES:MIDDLETRUNCATE:(\\d+)(?:\\|(\\w+:\\d+))?\\\x7d\\\x7d)") (by decide +kernel)

/-- A letter in either case. -/
def either (c : CodePoint) : CharClass := ⟨false, [.one c], true⟩

/-- Digits in group `n`. -/
def numberGroup (ignoreCase : Bool) (n : ℕ) : Pattern :=
  .group n (.seq (.rep true 1 none (.char ⟨false, [.digit true], ignoreCase⟩)) .eps)

/-- The filter of a variable in group `n`, if there is one. -/
def filterGroup (n : ℕ) : Pattern :=
  .rep true 0 (some 1) (.seq (.char (one 124)) (.seq (.group n (.seq (.rep true 1 none (.char ⟨false, [.word true], false⟩))
    (.seq (.char (one 58)) (.seq (.rep true 1 none (.char ⟨false, [.digit true], false⟩)) .eps)))) .eps))

def closing : PyStr := py "\x7d\x7d"

/-- A variable of the prompt with a number in group `n`. -/
def promptCount (name : PyStr) (n : ℕ) : Pattern :=
  exactly either name (.seq (numberGroup true n) (exactly either closing .eps))

/-- A variable of the messages with a number in group `n` and a filter in the next one. -/
def messagesCount (name : PyStr) (n : ℕ) : Pattern :=
  exactly one name (.seq (numberGroup false n) (.seq (filterGroup (n + 1)) (exactly one closing .eps)))

theorem promptPattern_eq : promptPattern =
    .alt (exactly either (py "\x7b\x7bprompt\x7d\x7d") .eps)
      (.alt (promptCount (py "\x7b\x7bprompt:start:") 1) (.alt (promptCount (py "\x7b\x7bprompt:end:") 2)
        (promptCount (py "\x7b\x7bprompt:middletruncate:") 3))) := by
  rw [promptPattern, re]
  decide

theorem messagesPattern_eq : messagesPattern =
    .seq (.alt (exactly one (py "\x7b\x7bMESSAGES") (.seq (filterGroup 1) (exactly one closing .eps)))
      (.alt (messagesCount (py "\x7b\x7bMESSAGES:START:") 2) (.alt (messagesCount (py "\x7b\x7bMESSAGES:END:") 4)
        (messagesCount (py "\x7b\x7bMESSAGES:MIDDLETRUNCATE:") 6)))) .eps := by
  rw [messagesPattern, re]
  decide +kernel

theorem closing_eq : closing = [125, 125] := by decide

/-! ## Readings -/

variable [Unicode]

theorem either_accepts (x y : CodePoint) : sre.accepts (either x) y = decide (foldCase y = foldCase x) := by
  simp [sre, either, CharClass.accepts, Item.accepts]

theorem either_self (x : CodePoint) : sre.accepts (either x) x = true := by rw [either_accepts, decide_eq_true rfl]

theorem number_accepts (ignoreCase : Bool) (x : CodePoint) :
    sre.accepts ⟨false, [.digit true], ignoreCase⟩ x = isDigit x := by
  simp [sre, CharClass.accepts, Item.accepts, isDigit]

theorem isDigit_brace : isDigit 125 = false := by
  rw [Bool.eq_false_iff]
  intro h
  exact absurd ((isDigit_ascii (by decide)).mp h) (by decide)

/-- What a number in braces is read as. -/
theorem first_numberGroup {ignoreCase : Bool} {n : ℕ} {d rest : PyStr} (hd : IsDigits d) {s : State CodePoint}
    (hafter : s.after = d ++ (closing ++ rest)) :
    first sre (numberGroup ignoreCase n) s = some ⟨d.reverse ++ s.before, closing ++ rest, (n, d) :: s.groups⟩ := by
  obtain ⟨c, d', rfl⟩ := List.exists_cons_of_ne_nil hd.ne_nil
  refine first_capture hafter (fun x hx ↦ ?_) fun x more hx ↦ ?_
  · rw [number_accepts]
    exact hd.all x hx
  · rw [closing_eq] at hx
    obtain ⟨rfl, -⟩ := List.cons_eq_cons.mp hx
    rw [number_accepts, isDigit_brace]

/-- In front of the braces there is no filter. -/
theorem first_filterGroup {n : ℕ} {c : CodePoint} {rest : PyStr} (hc : c ≠ 124) {s : State CodePoint}
    (hafter : s.after = c :: rest) : first sre (filterGroup n) s = some s := by
  refine first_of_forall ((mem_run_optional_iff rfl).mpr (Or.inl rfl)) fun t ht ↦ ?_
  rcases (mem_run_optional_iff rfl).mp ht with rfl | ht
  · rfl
  · obtain ⟨more, hmore, -⟩ := mem_run_one.mp ht
    rw [hafter] at hmore
    exact absurd (List.cons_eq_cons.mp hmore).1 hc

theorem first_promptCount {name d rest : PyStr} {n : ℕ} (hd : IsDigits d) {s : State CodePoint}
    (hafter : s.after = name ++ (d ++ (closing ++ rest))) :
    first sre (promptCount name n) s =
      some ⟨(name ++ d ++ closing).reverse ++ s.before, rest, (n, d) :: s.groups⟩ := by
  rw [promptCount, first_word either_self _ hafter]
  refine first_seq_of (first_numberGroup hd rfl) ?_
  rw [first_word either_self _ rfl, first_eps]
  simp [State.past]

theorem one_self (x : CodePoint) : sre.accepts (one x) x = true := (one_accepts x x).mpr rfl

theorem first_messagesCount {name d rest : PyStr} {n : ℕ} (hd : IsDigits d) {s : State CodePoint}
    (hafter : s.after = name ++ (d ++ (closing ++ rest))) :
    first sre (messagesCount name n) s =
      some ⟨(name ++ d ++ closing).reverse ++ s.before, rest, (n, d) :: s.groups⟩ := by
  have hbrace : closing ++ rest = 125 :: 125 :: rest := by
    rw [closing_eq]
    rfl
  rw [messagesCount, first_word one_self _ hafter]
  refine first_seq_of (first_numberGroup hd rfl) (first_seq_of (first_filterGroup (by decide) hbrace) ?_)
  rw [first_word one_self _ rfl, first_eps]
  simp [State.past]

/-- Where a match ends behind a text it reads that text. -/
theorem readAt_of_first {p : Pattern} {w rest before : PyStr} {groups : List (ℕ × PyStr)}
    (h : first sre p ⟨[], w ++ rest, []⟩ = some ⟨before, rest, groups⟩) :
    readAt sre p (w ++ rest) = some ⟨w, groups⟩ := by
  rw [readAt_eq_first, h]
  simp

/-! ## Expansions -/

/-- A variable of the prompt by its name, with the group of its number. -/
inductive PromptName : PyStr → ℕ → Prop
  | start : PromptName (py "\x7b\x7bprompt:start:") 1
  | finish : PromptName (py "\x7b\x7bprompt:end:") 2
  | middle : PromptName (py "\x7b\x7bprompt:middletruncate:") 3

/-- A variable of the messages by its name, with the group of its number. -/
inductive MessagesName : PyStr → ℕ → Prop
  | start : MessagesName (py "\x7b\x7bMESSAGES:START:") 2
  | finish : MessagesName (py "\x7b\x7bMESSAGES:END:") 4
  | middle : MessagesName (py "\x7b\x7bMESSAGES:MIDDLETRUNCATE:") 6

theorem readAt_prompt {name : PyStr} {n : ℕ} (h : PromptName name n) {d : PyStr} (hd : IsDigits d) (rest : PyStr) :
    readAt sre promptPattern (name ++ d ++ closing ++ rest) = some ⟨name ++ d ++ closing, [(n, d)]⟩ := by
  have hafter : name ++ d ++ closing ++ rest = name ++ (d ++ (closing ++ rest)) := by simp only [List.append_assoc]
  refine @readAt_of_first _ _ _ _ (name ++ d ++ closing).reverse _ ?_
  rw [promptPattern_eq]
  have hcount := @first_promptCount _ _ _ rest n hd ⟨[], name ++ d ++ closing ++ rest, []⟩ hafter
  rw [List.append_nil] at hcount
  have hnone : ∀ {other : PyStr} (q : Pattern), clash (fun x y ↦ foldCase y ≠ foldCase x) other name = true →
      first sre (exactly either other q) ⟨[], name ++ d ++ closing ++ rest, []⟩ = none := by
    intro other q hclash
    refine first_clash either_self (fun x y hxy ↦ ?_) q hclash hafter
    rw [either_accepts, decide_eq_false (of_decide_eq_true hxy)]
  have hother : ∀ {other : PyStr} {k : ℕ}, clash (fun x y ↦ foldCase y ≠ foldCase x) other name = true →
      first sre (promptCount other k) ⟨[], name ++ d ++ closing ++ rest, []⟩ = none := fun h ↦ hnone _ h
  cases h with
  | start =>
    rw [first_alt_right (hnone _ (by decide))]
    exact first_alt_left hcount
  | finish =>
    rw [first_alt_right (hnone _ (by decide)), first_alt_right (hother (by decide))]
    exact first_alt_left hcount
  | middle =>
    rw [first_alt_right (hnone _ (by decide)), first_alt_right (hother (by decide)),
      first_alt_right (hother (by decide))]
    exact hcount

/-- The name in front of a filter or the braces is not read where a longer name stands. -/
theorem first_bare_none {name v : PyStr} (hname : name = py "\x7b\x7bMESSAGES" ++ 58 :: v) {tail : PyStr}
    {s : State CodePoint} (hafter : s.after = name ++ tail) :
    first sre (exactly one (py "\x7b\x7bMESSAGES") (.seq (filterGroup 1) (exactly one closing .eps))) s = none := by
  have hcolon : s.after = py "\x7b\x7bMESSAGES" ++ 58 :: (v ++ tail) := by
    rw [hafter, hname, List.append_assoc, List.cons_append]
  rw [first_word one_self _ hcolon, first_eq_none_iff, List.eq_nil_iff_forall_not_mem]
  intro t ht
  obtain ⟨u, hu, ht⟩ := mem_run_seq.mp ht
  rcases (mem_run_optional_iff rfl).mp hu with rfl | hu
  · rw [closing_eq] at ht
    obtain ⟨more, hmore, -⟩ := mem_run_one.mp ht
    exact absurd (List.cons_eq_cons.mp hmore).1 (by decide)
  · obtain ⟨more, hmore, -⟩ := mem_run_one.mp hu
    exact absurd (List.cons_eq_cons.mp hmore).1 (by decide)

theorem readAt_messages {name : PyStr} {n : ℕ} (h : MessagesName name n) {d : PyStr} (hd : IsDigits d)
    (rest : PyStr) :
    readAt sre messagesPattern (name ++ d ++ closing ++ rest) = some ⟨name ++ d ++ closing, [(n, d)]⟩ := by
  have hafter : name ++ d ++ closing ++ rest = name ++ (d ++ (closing ++ rest)) := by simp only [List.append_assoc]
  refine @readAt_of_first _ _ _ _ (name ++ d ++ closing).reverse _ ?_
  rw [messagesPattern_eq]
  have hcount := @first_messagesCount _ _ _ rest n hd ⟨[], name ++ d ++ closing ++ rest, []⟩ hafter
  rw [List.append_nil] at hcount
  have hother : ∀ {other : PyStr} {k : ℕ}, clash (fun x y ↦ y ≠ x) other name = true →
      first sre (messagesCount other k) ⟨[], name ++ d ++ closing ++ rest, []⟩ = none := by
    intro other k hclash
    refine first_clash one_self (fun x y hxy ↦ ?_) _ hclash hafter
    rw [Bool.eq_false_iff, ne_eq, one_accepts]
    exact of_decide_eq_true hxy
  refine first_seq_of ?_ (first_eps _)
  cases h with
  | start =>
    rw [first_alt_right (first_bare_none (v := py "START:") (by decide) hafter)]
    exact first_alt_left hcount
  | finish =>
    rw [first_alt_right (first_bare_none (v := py "END:") (by decide) hafter),
      first_alt_right (hother (by decide))]
    exact first_alt_left hcount
  | middle =>
    rw [first_alt_right (first_bare_none (v := py "MIDDLETRUNCATE:") (by decide) hafter),
      first_alt_right (hother (by decide)), first_alt_right (hother (by decide))]
    exact hcount

/-- A variable expands to a text wherever it stands behind text without braces. -/
def Expands (f : PyStr → PyStr) (variable_text e : PyStr) : Prop :=
  ∀ before rest, (∀ c ∈ before, c ≠ 123) → f (before ++ (variable_text ++ rest)) = before ++ (e ++ f rest)

omit [Unicode] in
theorem Expands.unique {f : PyStr → PyStr} {w e e' : PyStr} (h : Expands f w e) (h' : Expands f w e') : e = e' := by
  have heq := (h [] [] (List.forall_mem_nil _)).symm.trans (h' [] [] (List.forall_mem_nil _))
  exact List.append_cancel_right heq

omit [Unicode] in
theorem foldCase_eq_brace {c : CodePoint} (h : foldCase c = 123) : c = 123 := by
  have hval : (foldCase c).val = 123 := congrArg Fin.val h
  unfold foldCase at h hval
  split_ifs at h hval with hcapital
  · simp only at hval
    omega
  all_goals first
    | exact h
    | cases h

theorem expands_of_readAt {p : Pattern} (hp : Plain p)
    (hbrace : leads (fun c ↦ decide (c = either 123 ∨ c = one 123)) p = true) {repl : Match → PyStr}
    {f : Reading CodePoint → PyStr} (hf : ∀ m, repl m = f m.reading) {x : Reading CodePoint}
    (hx : ∀ rest, readAt sre p (x.text ++ rest) = some x) : Expands (reSub p repl) x.text (f x) := by
  intro before rest hbefore
  induction before with
  | nil => exact hp.reSub_hit hf (hx rest)
  | cons c before ih =>
    obtain ⟨hc, hmore⟩ := List.forall_mem_cons.mp hbefore
    have hnone : readAt sre p (c :: (before ++ (x.text ++ rest))) = none := by
      unfold readAt
      rw [matchAt_eq_none_of_leads hbrace, Option.map_none]
      intro cls hcls
      rcases of_decide_eq_true hcls with rfl | rfl
      · rw [either_accepts]
        exact decide_eq_false fun h ↦ hc (foldCase_eq_brace (h.trans (by decide)))
      · rw [Bool.eq_false_iff, ne_eq, one_accepts]
        exact hc
    rw [List.cons_append, hp.reSub_skip hf hnone, ih hmore]
    rfl

omit [Unicode] in
theorem plain_promptPattern : Plain promptPattern := by
  rw [promptPattern_eq]
  exact ⟨by decide, by decide⟩

omit [Unicode] in
theorem plain_messagesPattern : Plain messagesPattern := by
  rw [messagesPattern_eq]
  exact ⟨by decide, by decide⟩

omit [Unicode] in
theorem leads_promptPattern :
    leads (fun c ↦ decide (c = either 123 ∨ c = one 123)) promptPattern = true := by
  rw [promptPattern_eq]
  decide

omit [Unicode] in
theorem leads_messagesPattern :
    leads (fun c ↦ decide (c = either 123 ∨ c = one 123)) messagesPattern = true := by
  rw [messagesPattern_eq]
  decide

variable [Casing]

/-- `replace_prompt_variable`. -/
def replacePromptVariable (template prompt : PyStr) : PyStr :=
  reSub promptPattern (fun m ↦ promptReplacement prompt (Casing.lower m.text) (m.group 1) (m.group 2) (m.group 3))
    template

/-- `replace_messages_variable` under the name `MESSAGES`. -/
def replaceMessagesVariable (template : PyStr) (messages : Option (List Message)) : PyStr :=
  reSub messagesPattern (fun m ↦ match messages with
    | none => []
    | some messages =>
      let content_filter :=
        if (m.group 2).isSome then m.group 3
        else if (m.group 4).isSome then m.group 5
        else if (m.group 6).isSome then m.group 7
        else m.group 1
      let selected := selectedMessages messages (m.group 2) (m.group 4) (m.group 6)
      getMessagesContent (match content_filter with
        | some filter_str => if filter_str ≠ [] then applyContentFilter selected filter_str else selected
        | none => selected)) template

/-- The numerals of a number. -/
def Numeral (n : ℕ) (d : PyStr) : Prop := ∃ ds : List (Fin 10), ds ≠ [] ∧ ofDigits ds = n ∧ d = digitsText ds

omit [Casing] in
theorem Numeral.isDigits {n : ℕ} {d : PyStr} (h : Numeral n d) : IsDigits d := by
  obtain ⟨ds, hne, -, rfl⟩ := h
  refine ⟨fun hnil ↦ hne (List.map_eq_nil_iff.mp hnil), fun c hc ↦ ?_⟩
  obtain ⟨x, -, rfl⟩ := List.mem_map.mp hc
  exact isDigit_digitChar x

omit [Casing] in
theorem Numeral.intOf_eq {n : ℕ} {d : PyStr} (h : Numeral n d) : intOf d = n := by
  obtain ⟨ds, -, hn, rfl⟩ := h
  rw [intOf, decimals_digitsText]
  exact hn

omit [Unicode] [Casing] in
theorem Numeral.ascii {n : ℕ} {d : PyStr} (h : Numeral n d) : ∀ c ∈ d, c.val < 128 := by
  obtain ⟨ds, -, -, rfl⟩ := h
  intro c hc
  obtain ⟨x, -, rfl⟩ := List.mem_map.mp hc
  simp only [digitChar]
  omega

omit [Unicode] in
/-- A variable with a number is not the one without. -/
theorem lower_ne_prompt {name d : PyStr} {k n : ℕ} (h : PromptName name k) (hd : Numeral n d) :
    Casing.lower (name ++ d ++ closing) ≠ py "\x7b\x7bprompt\x7d\x7d" := by
  have hname : name.all (fun c ↦ decide (c.val < 128)) = true ∧ name.take 9 = py "\x7b\x7bprompt:" ∧
      9 ≤ name.length := by
    cases h <;> decide
  have hascii : ∀ c ∈ name ++ d ++ closing, c.val < 128 := by
    rw [closing_eq]
    intro c hc
    rcases List.mem_append.mp hc with hc | hc
    · exact (List.mem_append.mp hc).elim (fun hc ↦ of_decide_eq_true (List.all_eq_true.mp hname.1 c hc))
        (hd.ascii c)
    · rcases List.mem_cons.mp hc with rfl | hc
      · decide
      · rw [List.mem_singleton.mp hc]
        decide
  rw [Casing.lower_ascii _ hascii]
  intro hequal
  have hhead := congrArg (List.take 9) hequal
  rw [← List.map_take, List.append_assoc, List.take_append_of_le_length hname.2.2, hname.2.1] at hhead
  exact absurd hhead (by decide)

omit [Unicode] [Casing] in
theorem group_reading {w d : PyStr} {k : ℕ} (j : ℕ) :
    (⟨w, [(k, d)]⟩ : Reading CodePoint).group j = if k = j then some d else none := by
  unfold Reading.group
  by_cases hj : k = j <;> simp [hj]

/-- What the groups of a reading of a prompt variable are replaced with. -/
def promptText (prompt : PyStr) (x : Reading CodePoint) : PyStr :=
  promptReplacement prompt (Casing.lower x.text) (x.group 1) (x.group 2) (x.group 3)

theorem expands_prompt {name d : PyStr} {k n : ℕ} (h : PromptName name k) (hd : Numeral n d) (prompt : PyStr) :
    Expands (replacePromptVariable · prompt) (name ++ d ++ closing)
      (promptText prompt ⟨name ++ d ++ closing, [(k, d)]⟩) := by
  have hread := expands_of_readAt plain_promptPattern leads_promptPattern (f := promptText prompt)
    (x := ⟨name ++ d ++ closing, [(k, d)]⟩) (fun _ ↦ rfl) fun rest ↦ readAt_prompt h hd.isDigits rest
  exact hread

/-- Of a variable with a number only the number counts. -/
theorem promptText_eq {name d : PyStr} {k n : ℕ} (h : PromptName name k) (hd : Numeral n d) (prompt : PyStr) :
    promptText prompt ⟨name ++ d ++ closing, [(k, d)]⟩ =
      if k = 1 then sliceTo prompt n
      else if k = 2 then sliceFrom prompt (-(n : ℤ))
      else if prompt.length ≤ n then prompt
      else sliceTo prompt ((n + 1) / 2 : ℕ) ++ py "..." ++ sliceFrom prompt (-(n / 2 : ℕ)) := by
  unfold promptText promptReplacement
  rw [if_neg (lower_ne_prompt h hd), group_reading, group_reading, group_reading]
  cases h <;> simp [hd.intOf_eq]

/-- The text that a variable of the messages selects. -/
def messagesText (messages : List Message) (x : Reading CodePoint) : PyStr :=
  let content_filter :=
    if (x.group 2).isSome then x.group 3
    else if (x.group 4).isSome then x.group 5
    else if (x.group 6).isSome then x.group 7
    else x.group 1
  let selected := selectedMessages messages (x.group 2) (x.group 4) (x.group 6)
  getMessagesContent (match content_filter with
    | some filter_str => if filter_str ≠ [] then applyContentFilter selected filter_str else selected
    | none => selected)

theorem expands_messages {name d : PyStr} {k n : ℕ} (h : MessagesName name k) (hd : Numeral n d)
    (messages : List Message) :
    Expands (replaceMessagesVariable · (some messages)) (name ++ d ++ closing)
      (messagesText messages ⟨name ++ d ++ closing, [(k, d)]⟩) := by
  have hread := expands_of_readAt plain_messagesPattern leads_messagesPattern (f := messagesText messages)
    (x := ⟨name ++ d ++ closing, [(k, d)]⟩) (fun _ ↦ rfl) fun rest ↦ readAt_messages h hd.isDigits rest
  exact hread

theorem messagesText_eq {name d : PyStr} {k n : ℕ} (h : MessagesName name k) (hd : Numeral n d)
    (messages : List Message) :
    messagesText messages ⟨name ++ d ++ closing, [(k, d)]⟩ = getMessagesContent (
      if k = 2 then sliceTo messages n
      else if k = 4 then sliceFrom messages (-(n : ℤ))
      else if messages.length ≤ n then messages
      else sliceTo messages (n / 2 : ℕ) ++
        if n % 2 = 0 then sliceFrom messages (-(n / 2 : ℕ)) else sliceFrom messages (-((n / 2 + 1 : ℕ) : ℤ))) := by
  unfold messagesText selectedMessages
  simp only [group_reading]
  cases h <;> simp [hd.intOf_eq]

/-! ## Truncation -/

/-- All of a sequence that has no more than `n` elements, of a longer one a beginning and an end with `n`
elements together. -/
def Middle {α β : Type} (n : ℕ) (l : List α) (join : List α → List α → β) (whole : List α → β) (kept : β) : Prop :=
  if l.length ≤ n then kept = whole l else ∃ a b, Cut n l a b ∧ kept = join a b

/-- What a truncating variable with the number `n` is to expand to. -/
structure Truncates (prompt : PyStr) (messages : List Message) (n : ℕ) : Prop where
  promptStart : ∀ d, Numeral n d →
    Expands (replacePromptVariable · prompt) (py "\x7b\x7bprompt:start:" ++ d ++ closing) (prompt.take n)
  promptEnd : ∀ d, Numeral n d →
    Expands (replacePromptVariable · prompt) (py "\x7b\x7bprompt:end:" ++ d ++ closing) (lastOf n prompt)
  promptMiddle : ∀ d, Numeral n d → ∃ e, Middle n prompt (fun a b ↦ a ++ py "..." ++ b) id e ∧
    Expands (replacePromptVariable · prompt) (py "\x7b\x7bprompt:middletruncate:" ++ d ++ closing) e
  messagesStart : ∀ d, Numeral n d →
    Expands (replaceMessagesVariable · (some messages)) (py "\x7b\x7bMESSAGES:START:" ++ d ++ closing)
      (getMessagesContent (messages.take n))
  messagesEnd : ∀ d, Numeral n d →
    Expands (replaceMessagesVariable · (some messages)) (py "\x7b\x7bMESSAGES:END:" ++ d ++ closing)
      (getMessagesContent (lastOf n messages))
  messagesMiddle : ∀ d, Numeral n d → ∃ kept, Middle n messages (· ++ ·) id kept ∧
    Expands (replaceMessagesVariable · (some messages)) (py "\x7b\x7bMESSAGES:MIDDLETRUNCATE:" ++ d ++ closing)
      (getMessagesContent kept)
  content : ∀ content mode, KeepsAtMost n content (truncateContent content n mode)

/-- A text of messages is empty where there are none alone. -/
theorem getMessagesContent_eq_nil {messages : List Message} (h : getMessagesContent messages = []) :
    messages = [] := by
  cases messages with
  | nil => rfl
  | cons m messages =>
    have hcolon : 58 ∈ getMessagesContent (m :: messages) := by
      have hhead : ∀ u : PyStr, (58 : CodePoint) ∈ u ++ py ": " := fun u ↦
        List.mem_append_right u (by decide)
      unfold getMessagesContent
      rw [List.map_cons]
      cases messages with
      | nil => exact List.mem_append_left _ (hhead _)
      | cons m' messages =>
        rw [List.map_cons, join]
        exact List.mem_append_left _ (List.mem_append_left _ (List.mem_append_left _ (hhead _)))
    rw [h] at hcolon
    cases hcolon

theorem numeral_zero : Numeral 0 [48] := ⟨[0], by decide, rfl, rfl⟩

theorem numeral_one : Numeral 1 [49] := ⟨[1], by decide, rfl, rfl⟩

theorem dots_length : (py "...").length = 3 := by decide

theorem promptEnd_iff (prompt : PyStr) (n : ℕ) : (∀ d, Numeral n d →
    Expands (replacePromptVariable · prompt) (py "\x7b\x7bprompt:end:" ++ d ++ closing) (lastOf n prompt)) ↔
      (n = 0 → prompt = []) := by
  have hexpands : ∀ d, Numeral n d → Expands (replacePromptVariable · prompt)
      (py "\x7b\x7bprompt:end:" ++ d ++ closing) (sliceFrom prompt (-(n : ℤ))) := by
    intro d hd
    have h := expands_prompt .finish hd prompt
    rwa [promptText_eq .finish hd, if_neg (by decide), if_pos rfl] at h
  constructor
  · rintro h rfl
    have hequal := (h [48] numeral_zero).unique (hexpands [48] numeral_zero)
    rw [lastOf_zero, sliceFrom_zero] at hequal
    exact hequal.symm
  · intro h d hd
    rcases Nat.eq_zero_or_pos n with rfl | hpos
    · have hempty := hexpands d hd
      rw [sliceFrom_zero, h rfl] at hempty
      rwa [lastOf_zero, h rfl]
    · rw [← sliceFrom_neg hpos]
      exact hexpands d hd

theorem messagesEnd_iff (messages : List Message) (n : ℕ) : (∀ d, Numeral n d →
    Expands (replaceMessagesVariable · (some messages)) (py "\x7b\x7bMESSAGES:END:" ++ d ++ closing)
      (getMessagesContent (lastOf n messages))) ↔ (n = 0 → messages = []) := by
  have hexpands : ∀ d, Numeral n d → Expands (replaceMessagesVariable · (some messages))
      (py "\x7b\x7bMESSAGES:END:" ++ d ++ closing) (getMessagesContent (sliceFrom messages (-(n : ℤ)))) := by
    intro d hd
    have h := expands_messages .finish hd messages
    rwa [messagesText_eq .finish hd, if_neg (by decide), if_pos rfl] at h
  constructor
  · rintro h rfl
    have hequal := (h [48] numeral_zero).unique (hexpands [48] numeral_zero)
    rw [lastOf_zero, sliceFrom_zero] at hequal
    exact getMessagesContent_eq_nil hequal.symm
  · intro h d hd
    rcases Nat.eq_zero_or_pos n with rfl | hpos
    · have hempty := hexpands d hd
      rw [sliceFrom_zero, h rfl] at hempty
      rwa [lastOf_zero, h rfl]
    · rw [← sliceFrom_neg hpos]
      exact hexpands d hd

theorem promptMiddle_iff (prompt : PyStr) (n : ℕ) : (∀ d, Numeral n d →
    ∃ e, Middle n prompt (fun a b ↦ a ++ py "..." ++ b) id e ∧ Expands (replacePromptVariable · prompt)
      (py "\x7b\x7bprompt:middletruncate:" ++ d ++ closing) e) ↔ (n ≤ 1 → prompt.length ≤ n) := by
  have hexpands : ∀ d, Numeral n d → Expands (replacePromptVariable · prompt)
      (py "\x7b\x7bprompt:middletruncate:" ++ d ++ closing) (if prompt.length ≤ n then prompt
        else prompt.take ((n + 1) / 2) ++ py "..." ++ sliceFrom prompt (-(n / 2 : ℕ))) := by
    intro d hd
    have h := expands_prompt .middle hd prompt
    rwa [promptText_eq .middle hd, if_neg (by decide), if_neg (by decide), sliceTo_natCast] at h
  constructor
  · intro h hone
    by_contra hlong
    -- Behind the dots stands all of the prompt, which is too long by what is in front of them.
    obtain ⟨d, hd⟩ : ∃ d, Numeral n d := by
      rcases Nat.le_one_iff_eq_zero_or_eq_one.mp hone with rfl | rfl
      · exact ⟨_, numeral_zero⟩
      · exact ⟨_, numeral_one⟩
    obtain ⟨e, hmiddle, he⟩ := h d hd
    have hequal := he.unique (hexpands d hd)
    have hhalf : n / 2 = 0 := by omega
    rw [Middle, if_neg hlong] at hmiddle
    obtain ⟨a, b, ⟨-, -, hcount⟩, rfl⟩ := hmiddle
    rw [if_neg hlong, hhalf, sliceFrom_zero] at hequal
    have hlength := congrArg List.length hequal
    simp only [List.length_append, List.length_take, dots_length] at hlength
    omega
  · intro h d hd
    refine ⟨_, ?_, hexpands d hd⟩
    unfold Middle
    split_ifs with hshort
    · rfl
    · have htwo : 2 ≤ n := by
        by_contra hfew
        exact hshort (h (by omega))
      rw [sliceFrom_neg (by omega)]
      exact ⟨_, _, cut_lastOf (by omega) (by omega) (by omega), rfl⟩

theorem messagesMiddle_iff (messages : List Message) (n : ℕ) : (∀ d, Numeral n d →
    ∃ kept, Middle n messages (· ++ ·) id kept ∧ Expands (replaceMessagesVariable · (some messages))
      (py "\x7b\x7bMESSAGES:MIDDLETRUNCATE:" ++ d ++ closing) (getMessagesContent kept)) ↔
        (n = 0 → messages = []) := by
  have hexpands : ∀ d, Numeral n d → Expands (replaceMessagesVariable · (some messages))
      (py "\x7b\x7bMESSAGES:MIDDLETRUNCATE:" ++ d ++ closing) (getMessagesContent (
        if messages.length ≤ n then messages
        else messages.take (n / 2) ++ if n % 2 = 0 then sliceFrom messages (-(n / 2 : ℕ))
          else sliceFrom messages (-((n / 2 + 1 : ℕ) : ℤ)))) := by
    intro d hd
    have h := expands_messages .middle hd messages
    rwa [messagesText_eq .middle hd, if_neg (by decide), if_neg (by decide), sliceTo_natCast] at h
  constructor
  · rintro h rfl
    by_contra hne
    have hlong : ¬ messages.length ≤ 0 := fun hzero ↦ hne (List.length_eq_zero_iff.mp (Nat.le_zero.mp hzero))
    obtain ⟨kept, hmiddle, hkept⟩ := h [48] numeral_zero
    have hequal := hkept.unique (hexpands [48] numeral_zero)
    rw [Middle, if_neg hlong] at hmiddle
    obtain ⟨a, b, ⟨-, -, hcount⟩, rfl⟩ := hmiddle
    rw [if_neg hlong, if_pos rfl, Nat.zero_div, sliceFrom_zero, List.take_zero, List.nil_append,
      List.length_eq_zero_iff.mp (Nat.eq_zero_of_add_eq_zero_right hcount),
      List.length_eq_zero_iff.mp (Nat.eq_zero_of_add_eq_zero_left hcount)] at hequal
    exact hne (getMessagesContent_eq_nil hequal.symm)
  · intro h d hd
    refine ⟨_, ?_, hexpands d hd⟩
    unfold Middle
    split_ifs with hshort heven
    · rfl
    · have htwo : 0 < n / 2 := by
        rcases Nat.eq_zero_or_pos n with rfl | hpos
        · exact absurd (by rw [h rfl]; exact Nat.zero_le _) hshort
        · omega
      rw [sliceFrom_neg htwo]
      exact ⟨_, _, cut_lastOf (by omega) (by omega) (by omega), rfl⟩
    · rw [sliceFrom_neg (Nat.succ_pos _)]
      exact ⟨_, _, cut_lastOf (by omega) (by omega) (by omega), rfl⟩

/-- The variables truncate to `n` unless it is 0, or 1 in the middle of a longer prompt. -/
theorem truncates_iff (prompt : PyStr) (messages : List Message) (n : ℕ) :
    Truncates prompt messages n ↔ (n = 0 → prompt = [] ∧ messages = []) ∧ (n = 1 → prompt.length ≤ 1) := by
  have hshort : (n ≤ 1 → prompt.length ≤ n) ↔ (n = 0 → prompt = []) ∧ (n = 1 → prompt.length ≤ 1) := by
    rw [← List.length_eq_zero_iff]
    constructor
    · exact fun h ↦ ⟨fun hn ↦ by have := h (by omega); omega, fun hn ↦ by have := h (by omega); omega⟩
    · rintro ⟨hzero, hone⟩ hn
      rcases Nat.le_one_iff_eq_zero_or_eq_one.mp hn with rfl | rfl
      · exact (hzero rfl).le
      · exact hone rfl
  constructor
  · intro h
    obtain ⟨hprompt, hone⟩ := hshort.mp ((promptMiddle_iff prompt n).mp h.promptMiddle)
    exact ⟨fun hn ↦ ⟨hprompt hn, (messagesEnd_iff messages n).mp h.messagesEnd hn⟩, hone⟩
  · rintro ⟨hzero, hone⟩
    refine ⟨fun d hd ↦ ?_, (promptEnd_iff prompt n).mpr fun hn ↦ (hzero hn).1,
      (promptMiddle_iff prompt n).mpr (hshort.mpr ⟨fun hn ↦ (hzero hn).1, hone⟩), fun d hd ↦ ?_,
      (messagesEnd_iff messages n).mpr fun hn ↦ (hzero hn).2,
      (messagesMiddle_iff messages n).mpr fun hn ↦ (hzero hn).2,
      fun content mode ↦ truncateContent_keeps content n mode⟩
    · have h := expands_prompt .start hd prompt
      rwa [promptText_eq .start hd, if_pos rfl, sliceTo_natCast] at h
    · have h := expands_messages .start hd messages
      rwa [messagesText_eq .start hd, if_pos rfl, sliceTo_natCast] at h

omit [Unicode] [Casing] in
/-- The last 0 characters of a prompt are the prompt. -/
theorem promptEnd_zero :
    @replacePromptVariable asciiTables asciiCasing (py "\x7b\x7bprompt:end:0\x7d\x7d") (py "secret") =
        py "secret" ∧
      ¬ @Truncates asciiTables asciiCasing (py "secret") [] 0 := by
  let u := asciiTables
  let c := asciiCasing
  refine ⟨by decide +kernel, fun h ↦ ?_⟩
  have hempty := (promptEnd_iff (py "secret") 0).mp h.promptEnd rfl
  exact absurd hempty (by decide)

end FourCE.Templates

import FourCE.Python.Text

/-!
# Quoting for a shell

`shlex.quote`, and `shlex.split` as it is called without options, which undoes it.
-/

namespace FourCE.Python

/-- A character that needs no quotes: an ASCII letter or digit, or one of a few marks. -/
def isSafe (c : CodePoint) : Bool :=
  48 ≤ c.val && c.val ≤ 57 || 65 ≤ c.val && c.val ≤ 90 || 97 ≤ c.val && c.val ≤ 122 ||
    c ∈ py "_@%+=:,.-/"

/-- `shlex.quote(s)`. -/
def shlexQuote (s : PyStr) : PyStr :=
  if s.isEmpty then py "''"
  else if s.all isSafe then s
  else py "'" ++ replace (py "'") (py "'\"'\"'") s ++ py "'"

/-- Where a lexer stands: outside quotes, in them, or behind a backslash. -/
inductive LexState
  | plain
  | single
  | double
  | escape (quoted : Bool)
  deriving DecidableEq

/-- A token that ends, if there is one. -/
def lexToken (token : PyStr) (quoted : Bool) : List PyStr :=
  if token.isEmpty && !quoted then [] else [token]

/-- The white space of the lexer. -/
def isLexSpace (c : CodePoint) : Bool := c ∈ py " \t\r\n"

/-- The lexer from within a token, which knows whether it met quotes; `none` is a `ValueError`. -/
def lexFrom : LexState → PyStr → Bool → PyStr → Option (List PyStr)
  | .plain, token, quoted, [] => some (lexToken token quoted)
  | _, _, _, [] => none
  | .plain, token, quoted, c :: s =>
    if isLexSpace c then (lexFrom .plain [] false s).map (lexToken token quoted ++ ·)
    else if c = 39 then lexFrom .single token quoted s
    else if c = 34 then lexFrom .double token quoted s
    else if c = 92 then lexFrom (.escape false) token quoted s
    else lexFrom .plain (token ++ [c]) quoted s
  | .single, token, _, c :: s =>
    if c = 39 then lexFrom .plain token true s else lexFrom .single (token ++ [c]) true s
  | .double, token, _, c :: s =>
    if c = 34 then lexFrom .plain token true s
    else if c = 92 then lexFrom (.escape true) token true s
    else lexFrom .double (token ++ [c]) true s
  | .escape false, token, quoted, c :: s => lexFrom .plain (token ++ [c]) quoted s
  | .escape true, token, quoted, c :: s =>
    -- Within quotes a backslash stands for itself unless a quote or a backslash follows.
    if c = 34 ∨ c = 92 then lexFrom .double (token ++ [c]) quoted s
    else lexFrom .double (token ++ [92, c]) quoted s

/-- `shlex.split(s)`. -/
def shlexSplit (s : PyStr) : Option (List PyStr) := lexFrom .plain [] false s

/-! ## What quoting writes -/

theorem isWhite_of_isSafe {c : CodePoint} (hc : isSafe c = true) : isWhite c = false := by
  have hmarks : (py "_@%+=:,.-/").all (fun d ↦ !isWhite d) = true := by decide
  by_cases hmark : c ∈ py "_@%+=:,.-/"
  · simpa using List.all_eq_true.mp hmarks c hmark
  · simp only [isSafe, hmark, decide_false, Bool.or_false, Bool.or_eq_true, Bool.and_eq_true,
      decide_eq_true_eq] at hc
    simp only [isWhite, Bool.or_eq_false_iff, Bool.and_eq_false_iff, decide_eq_false_iff_not]
    omega

theorem isSafe_of_mem {c : CodePoint} (hc : c ∈ py "'\"\\|" ++ py " \t\r\n") : isSafe c = false := by
  have hmarks : (py "'\"\\|" ++ py " \t\r\n").all (fun d ↦ !isSafe d) = true := by decide
  simpa using List.all_eq_true.mp hmarks c hc

/-- A token in single quotes. -/
theorem shlexQuote_of_notSafe {s : PyStr} (hs : s.all isSafe = false) :
    shlexQuote s = 39 :: ((s.flatMap fun c ↦ if c = 39 then py "'\"'\"'" else [c]) ++ [39]) := by
  have hne : s.isEmpty = false := by
    cases s with
    | nil => cases hs
    | cons c s => rfl
  rw [shlexQuote, hne, hs]
  exact congrArg (py "'" ++ · ++ py "'") (replace_single 39 (py "'\"'\"'") s)

/-- Quoting has three results. -/
theorem shlexQuote_cases (s : PyStr) :
    (s = [] ∧ shlexQuote s = [39, 39]) ∨ (s ≠ [] ∧ (∀ c ∈ s, isSafe c = true) ∧ shlexQuote s = s) ∨
      shlexQuote s = 39 :: ((s.flatMap fun c ↦ if c = 39 then py "'\"'\"'" else [c]) ++ [39]) := by
  by_cases hempty : s = []
  · subst hempty
    exact .inl ⟨rfl, rfl⟩
  · cases hsafe : s.all isSafe with
    | false => exact .inr (.inr (shlexQuote_of_notSafe hsafe))
    | true =>
      refine .inr (.inl ⟨hempty, List.all_eq_true.mp hsafe, ?_⟩)
      rw [shlexQuote, if_neg (by simpa using hempty), if_pos hsafe]

theorem stripped_quote : Stripped [39] := by
  constructor <;> (rintro c ⟨⟩; rfl)

theorem stripped_shlexQuote (s : PyStr) : Stripped (shlexQuote s) ∧ shlexQuote s ≠ [] := by
  rcases shlexQuote_cases s with ⟨-, hq⟩ | ⟨hne, hsafe, hq⟩ | hq
  · rw [hq]
    exact ⟨stripped_quote.append stripped_quote (List.cons_ne_nil _ _) (List.cons_ne_nil _ _) [],
      List.cons_ne_nil _ _⟩
  · rw [hq]
    refine ⟨⟨fun c hc ↦ ?_, fun c hc ↦ ?_⟩, hne⟩
    · exact isWhite_of_isSafe (hsafe c (List.mem_of_head? hc))
    · exact isWhite_of_isSafe (hsafe c (List.mem_of_getLast? hc))
  · rw [hq, ← List.singleton_append, ← List.append_assoc]
    exact ⟨stripped_quote.append stripped_quote (List.cons_ne_nil _ _) (List.cons_ne_nil _ _) _, by simp⟩

/-! ## Reading it back -/

theorem lexFrom_safe {s : PyStr} (hs : ∀ c ∈ s, isSafe c = true) (token : PyStr) (quoted : Bool) (rest : PyStr) :
    lexFrom .plain token quoted (s ++ rest) = lexFrom .plain (token ++ s) quoted rest := by
  induction s generalizing token with
  | nil => rw [List.nil_append, List.append_nil]
  | cons c s ih =>
    have hsafe := hs c List.mem_cons_self
    have hc : ∀ d ∈ py "'\"\\|" ++ py " \t\r\n", c ≠ d := by
      rintro d hd rfl
      rw [isSafe_of_mem hd] at hsafe
      cases hsafe
    have hspace : isLexSpace c = false := by
      rw [isLexSpace, decide_eq_false_iff_not]
      exact fun hmem ↦ hc c (List.mem_append_right _ hmem) rfl
    rw [List.cons_append, lexFrom, if_neg (by rw [hspace]; exact nofun), if_neg (hc 39 (by decide)),
      if_neg (hc 34 (by decide)), if_neg (hc 92 (by decide)),
      ih (fun d hd ↦ hs d (List.mem_cons_of_mem c hd)), List.append_assoc]
    rfl

/-- Within single quotes a quote leaves them, stands in double ones and goes on. -/
theorem lexFrom_single (s token : PyStr) (quoted : Bool) (rest : PyStr) :
    lexFrom .single token quoted ((s.flatMap fun c ↦ if c = 39 then py "'\"'\"'" else [c]) ++ 39 :: rest) =
      lexFrom .plain (token ++ s) true rest := by
  induction s generalizing token quoted with
  | nil => rw [List.flatMap_nil, List.nil_append, List.append_nil, lexFrom, if_pos rfl]
  | cons c s ih =>
    rw [List.flatMap_cons, List.append_assoc]
    by_cases hc : c = 39
    · subst hc
      have hround (behind : PyStr) : lexFrom .single token quoted (py "'\"'\"'" ++ behind) =
          lexFrom .single (token ++ [39]) true behind := rfl
      rw [if_pos rfl, hround, ih, List.append_assoc]
      rfl
    · rw [if_neg hc, List.singleton_append, lexFrom, if_neg hc, ih, List.append_assoc]
      rfl

/-- A quoted token is read as what it was, and it is one even where it is empty. -/
theorem lexFrom_shlexQuote (s rest : PyStr) : ∃ quoted,
    lexFrom .plain [] false (shlexQuote s ++ rest) = lexFrom .plain s quoted rest ∧ lexToken s quoted = [s] := by
  rcases shlexQuote_cases s with ⟨rfl, hq⟩ | ⟨hne, hsafe, hq⟩ | hq
  · refine ⟨true, ?_, rfl⟩
    rw [hq]
    rfl
  · refine ⟨false, ?_, ?_⟩
    · rw [hq, lexFrom_safe hsafe, List.nil_append]
    · rw [lexToken, if_neg (by simpa using hne)]
  · refine ⟨true, ?_, by rw [lexToken]; simp⟩
    rw [hq, List.cons_append, List.append_assoc]
    exact lexFrom_single s [] false rest

/-- Splitting inverts the quoting of a command. -/
theorem shlexSplit_join (tokens : List PyStr) :
    shlexSplit (join (py " ") (tokens.map shlexQuote)) = some tokens := by
  unfold shlexSplit
  induction tokens with
  | nil => rfl
  | cons token tokens ih =>
    cases tokens with
    | nil =>
      obtain ⟨quoted, hlex, htoken⟩ := lexFrom_shlexQuote token []
      rw [List.append_nil] at hlex
      rw [List.map_singleton, join, hlex, lexFrom, htoken]
    | cons token' tokens =>
      obtain ⟨quoted, hlex, htoken⟩ :=
        lexFrom_shlexQuote token (32 :: join (py " ") ((token' :: tokens).map shlexQuote))
      have hjoin : join (py " ") ((token :: token' :: tokens).map shlexQuote) =
          shlexQuote token ++ 32 :: join (py " ") ((token' :: tokens).map shlexQuote) :=
        List.append_assoc _ _ _
      rw [hjoin, hlex, lexFrom, if_pos (by decide), ih, htoken]
      rfl

end FourCE.Python

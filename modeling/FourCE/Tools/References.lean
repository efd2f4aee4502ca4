import FourCE.Library.RegexRuns
import FourCE.Python.JsonRoundTrip
import FourCE.Tools.Formula
import Mathlib.Data.List.Induction

/-!
# Cell references

Column letters and their numbers, each the inverse of the other, and what the pattern of a cell
reference reads.
-/

namespace FourCE.Tools

open FourCE.Python FourCE.Library.Regex

/-! ## Columns -/

def isCapital (c : CodePoint) : Bool := 65 ≤ c.val && c.val ≤ 90

/-- The letter of a column's last place, counted from 0. -/
def placeLetter (k : ℕ) : CodePoint := ⟨65 + k % 26, by omega⟩

theorem columnNumber_append (letters : PyStr) (c : CodePoint) :
    columnNumber (letters ++ [c]) = columnNumber letters * 26 + (c.val - 64) := by
  rw [columnNumber, List.foldl_append]
  rfl

theorem columnLettersFrom_eq {fuel n : ℕ} (h : n ≤ fuel) (letters : PyStr) :
    columnLettersFrom fuel n letters = columnLetters n ++ letters := by
  induction n using Nat.strongRecOn generalizing fuel letters with
  | _ n ih =>
    rcases Nat.eq_zero_or_pos n with rfl | hpos
    · cases fuel <;> rfl
    · have hlt : (n - 1) / 26 < n := by omega
      have hstep {m : ℕ} (hm : n ≤ m) (letters : PyStr) : columnLettersFrom m n letters =
          columnLetters ((n - 1) / 26) ++ (placeLetter (n - 1) :: letters) := by
        cases m with
        | zero => omega
        | succ m =>
          rw [columnLettersFrom, if_neg (by omega), ih _ hlt (by omega)]
          rfl
      have hself : columnLetters n = columnLetters ((n - 1) / 26) ++ [placeLetter (n - 1)] := hstep le_rfl []
      rw [hstep h, hself]
      simp

theorem columnLetters_of_pos {n : ℕ} (h : 0 < n) :
    columnLetters n = columnLetters ((n - 1) / 26) ++ [placeLetter (n - 1)] := by
  obtain ⟨m, rfl⟩ : ∃ m, n = m + 1 := ⟨n - 1, by omega⟩
  rw [columnLetters, columnLettersFrom, if_neg (by omega), columnLettersFrom_eq (by omega)]
  rfl

theorem columnNumber_columnLetters (n : ℕ) : columnNumber (columnLetters n) = n := by
  induction n using Nat.strongRecOn with
  | _ n ih =>
    rcases Nat.eq_zero_or_pos n with rfl | hpos
    · rfl
    · rw [columnLetters_of_pos hpos, columnNumber_append, ih _ (by omega), placeLetter]
      simp only
      omega

theorem columnLetters_columnNumber {letters : PyStr} (h : ∀ c ∈ letters, isCapital c = true) :
    columnLetters (columnNumber letters) = letters := by
  induction letters using List.reverseRecOn with
  | nil => rfl
  | append_singleton letters c ih =>
    have hc : isCapital c = true := h c (by simp)
    rw [isCapital, Bool.and_eq_true, decide_eq_true_eq, decide_eq_true_eq] at hc
    have hplace : placeLetter (columnNumber (letters ++ [c]) - 1) = c := by
      rw [columnNumber_append, placeLetter]
      apply Fin.ext
      simp only
      omega
    have hrest : (columnNumber (letters ++ [c]) - 1) / 26 = columnNumber letters := by
      rw [columnNumber_append]
      omega
    rw [columnLetters_of_pos (by rw [columnNumber_append]; omega), hplace, hrest,
      ih fun x hx ↦ h x (by simp [hx])]

theorem columnLetters_injective {m n : ℕ} (h : columnLetters m = columnLetters n) : m = n := by
  rw [← columnNumber_columnLetters m, h, columnNumber_columnLetters]

theorem isCapital_of_mem_columnLetters {n : ℕ} {c : CodePoint} (h : c ∈ columnLetters n) :
    isCapital c = true := by
  induction n using Nat.strongRecOn with
  | _ n ih =>
    rcases Nat.eq_zero_or_pos n with rfl | hpos
    · cases h
    · rw [columnLetters_of_pos hpos] at h
      rcases List.mem_append.mp h with h | h
      · exact ih _ (by omega) h
      · rw [List.mem_singleton.mp h, isCapital, placeLetter]
        simp only [Bool.and_eq_true, decide_eq_true_eq]
        omega

/-! ## Rows -/

theorem natDigits_of_lt {n : ℕ} (h : n < 10) : natDigits n = [⟨n, h⟩] := by
  have hmod : n % 10 = n := Nat.mod_eq_of_lt h
  simp [natDigits, digitsLoop, hmod, Nat.div_eq_of_lt h]

theorem digitsLoop_eq {fuel n : ℕ} (h : n < fuel) (acc : List (Fin 10)) :
    digitsLoop fuel n acc = natDigits n ++ acc := by
  induction n using Nat.strongRecOn generalizing fuel acc with
  | _ n ih =>
    have hstep {m : ℕ} (hm : n < m) (acc : List (Fin 10)) : digitsLoop m n acc =
        (if n / 10 = 0 then [] else natDigits (n / 10)) ++ (⟨n % 10, by omega⟩ :: acc) := by
      cases m with
      | zero => omega
      | succ m =>
        rw [digitsLoop]
        split_ifs with hn
        · rfl
        · exact ih _ (by omega) (by omega) _
    have hself : natDigits n = (if n / 10 = 0 then [] else natDigits (n / 10)) ++ [⟨n % 10, by omega⟩] :=
      hstep (Nat.lt_succ_self n) []
    rw [hstep h, hself]
    simp

theorem natDigits_append {n : ℕ} (hn : n ≠ 0) (d : Fin 10) : natDigits (10 * n + d.val) = natDigits n ++ [d] := by
  have hdiv : (10 * n + d.val) / 10 = n := by omega
  have hmod : (10 * n + d.val) % 10 = d.val := by omega
  rw [natDigits, digitsLoop]
  simp only [hdiv, hmod, if_neg hn]
  exact digitsLoop_eq (by omega) _

theorem ofDigits_append (ds : List (Fin 10)) (d : Fin 10) : ofDigits (ds ++ [d]) = 10 * ofDigits ds + d.val := by
  rw [ofDigits, List.foldl_append]
  rfl

theorem ofDigits_ne_zero {d : Fin 10} (hd : d.val ≠ 0) (ds : List (Fin 10)) : ofDigits (d :: ds) ≠ 0 := by
  induction ds using List.reverseRecOn with
  | nil => simpa [ofDigits] using hd
  | append_singleton ds e ih =>
    rw [← List.cons_append, ofDigits_append]
    omega

/-- A numeral that does not begin with 0 is the text of its number. -/
theorem natDigits_ofDigits {d : Fin 10} (hd : d.val ≠ 0) (ds : List (Fin 10)) :
    natDigits (ofDigits (d :: ds)) = d :: ds := by
  induction ds using List.reverseRecOn with
  | nil =>
    have : ofDigits [d] = d.val := by simp [ofDigits]
    rw [this, natDigits_of_lt d.isLt]
  | append_singleton ds e ih =>
    rw [← List.cons_append, ofDigits_append, natDigits_append (ofDigits_ne_zero hd ds), ih]

/-- ASCII digits. -/
def isAsciiDigit (c : CodePoint) : Bool := 48 ≤ c.val && c.val ≤ 57

section

variable [Unicode]

theorem intOf_natText (n : ℕ) : intOf (natText n) = n := by
  rw [intOf, natText, decimals_digitsText]
  exact ofDigits_natDigits n

omit [Unicode] in
theorem exists_digitsText {s : PyStr} (h : ∀ c ∈ s, isAsciiDigit c = true) : ∃ ds, s = digitsText ds := by
  induction s with
  | nil => exact ⟨[], rfl⟩
  | cons c s ih =>
    obtain ⟨ds, rfl⟩ := ih fun x hx ↦ h x (List.mem_cons_of_mem c hx)
    have hc := h c List.mem_cons_self
    rw [isAsciiDigit, Bool.and_eq_true, decide_eq_true_eq, decide_eq_true_eq] at hc
    refine ⟨⟨c.val - 48, by omega⟩ :: ds, ?_⟩
    rw [digitsText, digitsText, List.map_cons, List.cons.injEq]
    refine ⟨Fin.ext ?_, rfl⟩
    simp only [digitChar]
    omega

end

/-! ## The pattern of a reference -/

def isRowStart (c : CodePoint) : Bool := 49 ≤ c.val && c.val ≤ 57

/-- A dollar sign or nothing. -/
def IsDollar (a : PyStr) : Prop := a = [] ∨ a = [36]

structure IsLetters (letters : PyStr) : Prop where
  pos : 1 ≤ letters.length
  le : letters.length ≤ 3
  capital : ∀ c ∈ letters, isCapital c = true

structure IsRowText (row : PyStr) : Prop where
  starts : ∃ c digits, row = c :: digits ∧ isRowStart c = true ∧ digits.length ≤ 6
  digit : ∀ c ∈ row, isAsciiDigit c = true

def oneClass (x : CodePoint) : CharClass := ⟨false, [.one x], false⟩

def rangeClass (low high : CodePoint) : CharClass := ⟨false, [.range low high], false⟩

def dollarPattern : Pattern := .rep true 0 (some 1) (.char (oneClass 36))

def lettersPattern : Pattern := .seq (.rep true 1 (some 3) (.char (rangeClass 65 90))) .eps

def rowPattern : Pattern :=
  .seq (.char (rangeClass 49 57)) (.seq (.rep true 0 (some 6) (.char (rangeClass 48 57))) .eps)

/-- A reference with its letters and its row in two groups, and what follows it. -/
def refThen (i j : ℕ) (next : Pattern) : Pattern :=
  .seq dollarPattern (.seq (.group i lettersPattern) (.seq dollarPattern (.seq (.group j rowPattern) next)))

/-- What must not stand in front of a reference. -/
def beforeRef : CharClass := ⟨false, [.range 65 90, .range 97 122, .one 95, .one 34], false⟩

/-- What must not stand behind a reference. -/
def afterRef : CharClass := ⟨false, [.range 48 57, .range 65 90, .range 97 122, .one 95, .one 40], false⟩

theorem REF_eq : REF = .seq (.test (.behind false [beforeRef]))
    (refThen 1 2 (.seq (.test (.ahead false [afterRef])) .eps)) := by decide +kernel

theorem RANGE_eq : RANGE = refThen 1 2 (.seq (.char (oneClass 58)) (refThen 3 4 .eps)) := by decide +kernel

section

variable [Unicode]

theorem rangeClass_accepts (low high x : CodePoint) :
    (rangeClass low high).accepts x = (low ≤ x && x ≤ high) := by
  simp [rangeClass, CharClass.accepts, Item.accepts]

theorem oneClass_accepts (c x : CodePoint) : (oneClass c).accepts x = decide (x = c) := by
  simp [oneClass, CharClass.accepts, Item.accepts]

theorem mem_run_dollar {s t : State CodePoint} :
    t ∈ run sre dollarPattern s ↔ ∃ a rest, s.after = a ++ rest ∧ IsDollar a ∧ t = s.past a rest := by
  rw [dollarPattern, mem_run_rep_char]
  constructor
  · rintro ⟨a, rest, hafter, hall, -, hle, rfl⟩
    refine ⟨a, rest, hafter, ?_, rfl⟩
    cases a with
    | nil => exact Or.inl rfl
    | cons x a =>
      have hlength := hle 1 rfl
      have hx : (oneClass 36).accepts x = true := hall x List.mem_cons_self
      rw [oneClass_accepts, decide_eq_true_eq] at hx
      rw [List.length_cons] at hlength
      rw [hx, List.eq_nil_of_length_eq_zero (l := a) (by omega)]
      exact Or.inr rfl
  · rintro ⟨a, rest, hafter, hdollar, rfl⟩
    refine ⟨a, rest, hafter, ?_, Nat.zero_le _, ?_, rfl⟩
    · rcases hdollar with rfl | rfl
      · simp
      · intro x hx
        rw [List.mem_singleton.mp hx]
        exact (oneClass_accepts 36 36).trans (decide_eq_true rfl)
    · rintro k ⟨⟩
      rcases hdollar with rfl | rfl <;> simp

theorem mem_run_letters {s t : State CodePoint} :
    t ∈ run sre lettersPattern s ↔ ∃ letters rest, s.after = letters ++ rest ∧ IsLetters letters ∧
      t = s.past letters rest := by
  have hcapital (x : CodePoint) : (rangeClass 65 90).accepts x = isCapital x := rangeClass_accepts 65 90 x
  simp only [lettersPattern, mem_run_seq, mem_run_eps, mem_run_rep_char]
  constructor
  · rintro ⟨u, ⟨letters, rest, hafter, hall, hpos, hle, rfl⟩, rfl⟩
    exact ⟨letters, rest, hafter, ⟨hpos, hle 3 rfl, fun c hc ↦ (hcapital c).symm.trans (hall c hc)⟩, rfl⟩
  · rintro ⟨letters, rest, hafter, hletters, rfl⟩
    refine ⟨_, ⟨letters, rest, hafter, fun c hc ↦ (hcapital c).trans (hletters.capital c hc), hletters.pos,
      ?_, rfl⟩, rfl⟩
    rintro k ⟨⟩
    exact hletters.le

theorem mem_run_row {s t : State CodePoint} :
    t ∈ run sre rowPattern s ↔ ∃ row rest, s.after = row ++ rest ∧ IsRowText row ∧ t = s.past row rest := by
  have hstart (x : CodePoint) : (rangeClass 49 57).accepts x = isRowStart x := rangeClass_accepts 49 57 x
  have hdigit (x : CodePoint) : (rangeClass 48 57).accepts x = isAsciiDigit x := rangeClass_accepts 48 57 x
  simp only [rowPattern, mem_run_seq, mem_run_eps, mem_run_char, mem_run_rep_char]
  constructor
  · rintro ⟨u, ⟨x, more, hafter, hx, rfl⟩, v, ⟨digits, rest, hmore, hall, -, hle, rfl⟩, rfl⟩
    rw [State.past_after] at hmore
    refine ⟨x :: digits, rest, by rw [hafter, hmore]; rfl, ⟨⟨x, digits, rfl, ?_, hle 6 rfl⟩, fun c hc ↦ ?_⟩,
      State.past_past s [x] digits more rest⟩
    · exact (hstart x).symm.trans hx
    · rcases List.mem_cons.mp hc with rfl | hc
      · have := (hstart c).symm.trans hx
        rw [isRowStart, Bool.and_eq_true, decide_eq_true_eq, decide_eq_true_eq] at this
        rw [isAsciiDigit, Bool.and_eq_true, decide_eq_true_eq, decide_eq_true_eq]
        omega
      · exact (hdigit c).symm.trans (hall c hc)
  · rintro ⟨row, rest, hafter, ⟨⟨x, digits, rfl, hx, hle⟩, hall⟩, rfl⟩
    refine ⟨_, ⟨x, digits ++ rest, hafter, (hstart x).trans hx, rfl⟩, _, ⟨digits, rest, rfl, fun c hc ↦ ?_,
      Nat.zero_le _, ?_, rfl⟩, (State.past_past s [x] digits (digits ++ rest) rest).symm⟩
    · exact (hdigit c).trans (hall c (List.mem_cons_of_mem x hc))
    · rintro k ⟨⟩
      exact hle

/-- The state behind a reference that has been read. -/
def pastRef (s : State CodePoint) (i j : ℕ) (a letters b row rest : PyStr) : State CodePoint :=
  { s.past (a ++ letters ++ b ++ row) rest with groups := (j, row) :: (i, letters) :: s.groups }

theorem mem_run_refThen {i j : ℕ} {next : Pattern} {s t : State CodePoint} :
    t ∈ run sre (refThen i j next) s ↔ ∃ a letters b row rest, s.after = a ++ letters ++ b ++ row ++ rest ∧
      IsDollar a ∧ IsLetters letters ∧ IsDollar b ∧ IsRowText row ∧
        t ∈ run sre next (pastRef s i j a letters b row rest) := by
  simp only [refThen, mem_run_seq, mem_run_dollar, mem_run_group, mem_run_letters, mem_run_row]
  constructor
  · rintro ⟨u₁, ⟨a, r₁, h₁, ha, rfl⟩, u₂, ⟨v₂, ⟨letters, r₂, h₂, hletters, rfl⟩, rfl⟩, u₃,
      ⟨b, r₃, h₃, hb, rfl⟩, u₄, ⟨v₄, ⟨row, rest, h₄, hrow, rfl⟩, rfl⟩, ht⟩
    simp only [State.past_after] at h₂ h₃ h₄
    refine ⟨a, letters, b, row, rest, by rw [h₁, h₂, h₃, h₄]; simp, ha, hletters, hb, hrow, ?_⟩
    convert ht using 1
    rw [upTo_past _ h₂, upTo_past _ h₄]
    simp [pastRef, State.past]
  · rintro ⟨a, letters, b, row, rest, h, ha, hletters, hb, hrow, ht⟩
    refine ⟨_, ⟨a, letters ++ (b ++ (row ++ rest)), by rw [h]; simp, ha, rfl⟩, _,
      ⟨_, ⟨letters, b ++ (row ++ rest), rfl, hletters, rfl⟩, rfl⟩, _, ⟨b, row ++ rest, rfl, hb, rfl⟩, _,
      ⟨_, ⟨row, rest, rfl, hrow, rfl⟩, rfl⟩, ?_⟩
    convert ht using 1
    rw [upTo_past _ rfl, upTo_past _ rfl]
    simp [pastRef, State.past]

/-- What a whole text that is a reference is made of. -/
structure IsRef (a letters b row : PyStr) : Prop where
  first : IsDollar a
  letters : IsLetters letters
  second : IsDollar b
  row : IsRowText row

theorem fullmatch_REF {s : PyStr} {m : Match} (h : reFullmatch REF s = some m) :
    ∃ a letters b row, s = a ++ letters ++ b ++ row ∧ IsRef a letters b row ∧
      groupText m 1 = letters ∧ groupText m 2 = row := by
  rw [reFullmatch, Option.map_eq_some_iff] at h
  obtain ⟨t, ht, rfl⟩ := h
  have hempty := List.find?_some ht
  have hrun := List.mem_of_find?_eq_some ht
  rw [REF_eq, mem_run_seq] at hrun
  obtain ⟨u, hu, hrun⟩ := hrun
  obtain ⟨-, rfl⟩ := mem_run_test.mp hu
  obtain ⟨a, letters, b, row, rest, hafter, ha, hletters, hb, hrow, hrun⟩ := mem_run_refThen.mp hrun
  obtain ⟨v, hv, hrun⟩ := mem_run_seq.mp hrun
  obtain ⟨-, rfl⟩ := mem_run_test.mp hv
  obtain rfl := mem_run_eps.mp hrun
  obtain rfl : rest = [] := List.isEmpty_iff.mp hempty
  refine ⟨a, letters, b, row, ?_, ⟨ha, hletters, hb, hrow⟩, rfl, rfl⟩
  rw [← List.append_nil (a ++ letters ++ b ++ row)]
  exact hafter

/-! ## A reference without its dollar signs -/

omit [Unicode] in
theorem takeWhile_isCapital_append {letters row : PyStr} (hletters : ∀ c ∈ letters, isCapital c = true)
    (hrow : ∀ c ∈ row.head?, isCapital c = false) :
    (letters ++ row).takeWhile isCapital = letters ∧ (letters ++ row).dropWhile isCapital = row := by
  constructor
  · rw [List.takeWhile_append_of_pos hletters]
    cases row with
    | nil => simp
    | cons c row => simp [hrow c rfl]
  · rw [List.dropWhile_append_of_pos hletters]
    cases row with
    | nil => rfl
    | cons c row => simp [hrow c rfl]

omit [Unicode] in
theorem isCapital_of_isAsciiDigit {c : CodePoint} (h : isAsciiDigit c = true) : isCapital c = false := by
  rw [isAsciiDigit, Bool.and_eq_true, decide_eq_true_eq, decide_eq_true_eq] at h
  rw [isCapital, Bool.and_eq_false_iff, decide_eq_false_iff_not, decide_eq_false_iff_not]
  omega

/-- A reference without dollar signs is the text of its position. -/
theorem refText_of_isRef {a letters b row : PyStr} (h : IsRef a letters b row) :
    refText (columnNumber letters) (intOf row) = letters ++ row := by
  obtain ⟨ds, rfl⟩ := exists_digitsText h.row.digit
  rw [refText, columnLetters_columnNumber h.letters.capital, intOf, decimals_digitsText]
  obtain ⟨c, digits, hrow, hc, -⟩ := h.row.starts
  cases ds with
  | nil => cases hrow
  | cons d ds =>
    have hd : d.val ≠ 0 := by
      rw [digitsText, List.map_cons, List.cons.injEq] at hrow
      rw [← hrow.1, isRowStart, Bool.and_eq_true, decide_eq_true_eq] at hc
      have := hc.1
      simp only [digitChar] at this
      omega
    simp only [Option.map_some, Option.getD_some, natText, natDigits_ofDigits hd]

omit [Unicode] in
theorem replace_dollar {a letters b row : PyStr} (h : IsRef a letters b row) :
    replace (py "$") [] (a ++ letters ++ b ++ row) = letters ++ row := by
  have hletters : letters.flatMap (fun x ↦ if x = 36 then [] else [x]) = letters := by
    refine flatMap_ite_of_notMem fun hmem ↦ ?_
    exact absurd (h.letters.capital 36 hmem) (by decide)
  have hrow : row.flatMap (fun x ↦ if x = 36 then [] else [x]) = row := by
    refine flatMap_ite_of_notMem fun hmem ↦ ?_
    exact absurd (h.row.digit 36 hmem) (by decide)
  have hdollar {d : PyStr} (hd : IsDollar d) : d.flatMap (fun x ↦ if x = 36 then [] else [x]) = [] := by
    rcases hd with rfl | rfl <;> rfl
  rw [show (py "$" : PyStr) = [36] from rfl, replace_single]
  simp only [List.flatMap_append, hletters, hrow, hdollar h.first, hdollar h.second, List.nil_append,
    List.append_nil]

end

end FourCE.Tools

import FourCE.Tools.References

/-!
# Columns in two modules

`_column_index` and `_column_name` of the orchestrator beside `_column_number` and `_column_letters` of the sheet
tool.  Letters count in places of 26 without a zero.
-/

namespace FourCE.Workbook

open FourCE.Python
open FourCE.Tools (columnLetters columnLetters_columnNumber columnNumber_columnLetters isCapital
  isCapital_of_mem_columnLetters)

/-- `_column_index(letters)` -/
def columnIndex (letters : PyStr) : ℤ := letters.foldl (fun n ch ↦ n * 26 + ch.val - 64) 0

/-- `_column_number(letters)` -/
def columnNumber [Casing] (letters : PyStr) : ℤ := (Casing.upper letters).foldl (fun n ch ↦ n * 26 + ch.val - 64) 0

theorem letter_lt (n : ℕ) : 65 + (n - 1) % 26 < 0x110000 := by omega

/-- The loop of `_column_name`, with as many turns as `n` has at most. -/
def columnNameFrom : ℕ → ℕ → PyStr → PyStr
  | 0, _, letters => letters
  | turns + 1, n, letters =>
    if n = 0 then letters
    else
      let rest := (n - 1) % 26
      columnNameFrom turns ((n - 1) / 26) (⟨65 + rest, letter_lt n⟩ :: letters)

/-- `_column_name(n)` -/
def columnName (n : ℕ) : PyStr := columnNameFrom n n []

theorem columnName_eq (n : ℕ) : columnName n = columnLetters n := by
  have hfrom (turns n : ℕ) (letters : PyStr) :
      columnNameFrom turns n letters = Tools.columnLettersFrom turns n letters := by
    induction turns generalizing n letters with
    | zero => rfl
    | succ turns ih =>
      unfold columnNameFrom Tools.columnLettersFrom
      rw [ih]
  exact hfrom n n []

/-- Of capital letters the index is the number without a sign. -/
theorem columnIndex_of_capital {letters : PyStr} (h : ∀ c ∈ letters, isCapital c = true) :
    columnIndex letters = Tools.columnNumber letters := by
  have hfold (n : ℕ) : letters.foldl (fun (n : ℤ) ch ↦ n * 26 + ch.val - 64) n =
      (letters.foldl (fun n ch ↦ n * 26 + (ch.val - 64)) n : ℕ) := by
    induction letters generalizing n with
    | nil => rfl
    | cons c letters ih =>
      obtain ⟨hc, hrest⟩ := List.forall_mem_cons.mp h
      rw [isCapital, Bool.and_eq_true, decide_eq_true_eq] at hc
      have hstep : (n : ℤ) * 26 + c.val - 64 = ((n * 26 + (c.val - 64) : ℕ) : ℤ) := by omega
      rw [List.foldl_cons, List.foldl_cons, hstep, ih hrest]
  exact hfold 0

section

variable [Casing]

theorem upper_of_capital {letters : PyStr} (h : ∀ c ∈ letters, isCapital c = true) : Casing.upper letters = letters := by
  have hrange : ∀ c ∈ letters, 65 ≤ c.val ∧ c.val ≤ 90 := by
    intro c hc
    simpa [isCapital] using h c hc
  rw [Casing.upper_ascii letters fun c hc ↦ by have := hrange c hc; omega]
  refine (List.map_congr_left fun c hc ↦ ?_).trans (List.map_id letters)
  have hc' := hrange c hc
  unfold upperAscii
  rw [if_neg (by omega)]
  rfl

theorem columnNumber_of_upper {letters : PyStr} (h : Casing.upper letters = letters) :
    columnNumber letters = columnIndex letters := by
  rw [columnNumber, h]
  rfl

/-- Letters and numbers are inverse in both modules, and the modules agree on letters that are capital. -/
theorem columns_inverse :
    (∀ n : ℕ, 1 ≤ n → columnIndex (columnName n) = n ∧ columnNumber (columnLetters n) = n) ∧
    (∀ letters : PyStr, letters ≠ [] → (∀ c ∈ letters, isCapital c = true) →
      ∃ n : ℕ, 1 ≤ n ∧ columnIndex letters = n ∧ columnName n = letters ∧
        columnNumber letters = n ∧ columnLetters n = letters) ∧
    (∀ n : ℕ, columnName n = columnLetters n) ∧
    ∀ letters : PyStr, Casing.upper letters = letters → columnNumber letters = columnIndex letters := by
  have hnumber (n : ℕ) : columnIndex (columnLetters n) = n := by
    rw [columnIndex_of_capital fun c hc ↦ isCapital_of_mem_columnLetters hc, columnNumber_columnLetters]
  refine ⟨fun n _ ↦ ⟨?_, ?_⟩, fun letters hne hcapital ↦ ?_, columnName_eq, fun letters h ↦ columnNumber_of_upper h⟩
  · rw [columnName_eq, hnumber]
  · rw [columnNumber_of_upper (upper_of_capital fun c hc ↦ isCapital_of_mem_columnLetters hc), hnumber]
  · have hletters := columnLetters_columnNumber hcapital
    refine ⟨Tools.columnNumber letters, ?_, columnIndex_of_capital hcapital, ?_, ?_, hletters⟩
    · rw [Nat.one_le_iff_ne_zero]
      intro hzero
      rw [hzero] at hletters
      exact hne hletters.symm
    · rw [columnName_eq, hletters]
    · rw [columnNumber_of_upper (upper_of_capital hcapital), columnIndex_of_capital hcapital]

end

/-- The sheet tool takes small letters for capitals, the orchestrator does not. -/
theorem columnIndex_small : columnIndex (py "a") = 33 ∧ @columnNumber asciiCasing (py "a") = 1 := by decide

end FourCE.Workbook

import FourCE.Library.RegexFirst
import FourCE.Sop.Disposition
import FourCE.Workbook.Build

/-!
# The formulas of a workbook

A string that begins with `=` is stored as a live formula.  The workbook says of itself that its only
formulas are totals that were checked to add up, and a sheet of remaining life is meant to
recalculate.  Every formula is one of these just where no text that reaches a cell as it stands begins
with `=`.
-/

namespace FourCE.Workbook

open FourCE.Python FourCE.Library.Regex

/-- The library stores the string as a live formula. -/
def isFormula (s : PyStr) : Bool := startsWith (py "=") s

theorem isFormula_iff {s : PyStr} : isFormula s = true ↔ ∃ rest, s = 61 :: rest := by
  cases s with
  | nil => simp [isFormula, startsWith, py]
  | cons c s =>
    have hcons : isFormula (c :: s) = ((61 : CodePoint) == c) := by
      rw [isFormula, startsWith]
      exact Bool.and_true _
    rw [hcons, beq_iff_eq]
    constructor
    · rintro rfl
      exact ⟨s, rfl⟩
    · rintro ⟨rest, h⟩
      exact (List.cons.inj h).1.symm

theorem isFormula_append {s t : PyStr} (ht : isFormula t = false) : isFormula (s ++ t) = isFormula s := by
  cases s with
  | nil => rw [List.nil_append, ht]; rfl
  | cons c s => rfl

/-! ## Texts -/

section

variable [Unicode]

theorem reSub_nil {p : Pattern} (h : consumes p = true) (f : Match → PyStr) : reSub p f [] = [] := by
  have hnone : reFinditer p [] = [] := by
    rw [reFinditer, finditer_eq, scanFrom_none_nil]
    · rfl
    rw [matchAt_eq, Option.map_eq_none_iff, first_eq_none_iff, List.eq_nil_iff_forall_not_mem]
    intro t ht
    exact absurd (run_consumes p h _ t ht) (Nat.not_lt_zero _)
  rw [reSub, hnone]
  rfl

theorem plain_nil : plain [] = [] := by
  have hpatterns : consumes breakTag = true ∧ consumes htmlTag = true ∧ consumes inlineLink = true ∧
      consumes strong = true ∧ consumes emphasis = true ∧ consumes inlineCode = true ∧
      consumes escapedMark = true := by
    unfold breakTag htmlTag inlineLink strong emphasis inlineCode escapedMark re
    decide
  obtain ⟨h₁, h₂, h₃, h₄, h₅, h₆, h₇⟩ := hpatterns
  rw [plain, clean, reSub_nil h₁, reSub_nil h₂, reSub_nil h₃, reSub_nil h₄, reSub_nil h₅, reSub_nil h₆,
    unescape, reSub_nil h₇]
  rfl

/-- What begins with `=` is no number. -/
theorem numeric_of_isFormula {cell : PyStr} (h : isFormula (plain cell) = true) : numeric cell = none := by
  obtain ⟨rest, hplain⟩ := isFormula_iff.mp h
  let signs : CharClass := ⟨false, [.one 45, .one 43, .one 8722], false⟩
  let digits : CharClass := ⟨false, [.digit true], false⟩
  have hleads : leads (fun c ↦ c ∈ [signs, digits]) NUMBER = true := by
    unfold NUMBER re
    decide
  have hequals : ∀ c, decide (c ∈ [signs, digits]) = true → sre.accepts c 61 = false := by
    intro c hc
    rcases List.mem_pair.mp (of_decide_eq_true hc) with rfl | rfl
    · rfl
    · have hdecimal := Unicode.decimal_ascii 61 (by decide)
      simp [sre, digits, CharClass.accepts, Item.accepts, hdecimal]
  have hmatch : reMatch NUMBER (plain cell) = none := by
    rw [hplain, reMatch, matchAt_eq_none_of_leads hleads hequals]
    rfl
  rw [numeric, hmatch]
  rfl

end

/-! ## Cells of a table -/

@[simp] theorem textCell_row {F : Type} (row column : ℕ) (s : PyStr) : (textCell row column s : Cell F).row = row := rfl

@[simp] theorem textCell_column {F : Type} (row column : ℕ) (s : PyStr) :
    (textCell row column s : Cell F).column = column := rfl

theorem mem_zipIdx_tail {A : Type} {xs : List A} {x : A} {i : ℕ} :
    (x, i) ∈ xs.zipIdx.tail ↔ xs[i]? = some x ∧ 0 < i := by
  cases xs with
  | nil => simp
  | cons y ys =>
    rw [List.zipIdx_cons, List.tail_cons, List.mk_mem_zipIdx_iff_le_and_getElem?_sub]
    cases i with
    | zero => simp
    | succ i => simp

/-! ## Cells of a calculation -/

section

variable {F : Type}

theorem given_string {v : Json F} {s : PyStr} (h : (CellValue.given v).string = some s) : v = .str s := by
  cases v with
  | str t => exact congrArg Json.str (Option.some.inj h)
  | null | bool | int | float | arr | obj => cases h

theorem mem_remainingLifeSheet {rows : List (LifeRow F)} {basis : Option PyStr} {cell : Cell F} :
    cell ∈ remainingLifeSheet rows basis ↔
      (∃ name c, lifeHeader[c]? = some name ∧ cell = textCell 1 (c + 1) name) ∨
      (∃ row r, rows[r]? = some row ∧ cell ∈ lifeRowCells (r + 2) row) ∨
      cell = textCell (rows.length + 3) 1 (lifeNote basis) := by
  rw [remainingLifeSheet, List.mem_append, List.mem_append, or_assoc, List.mem_singleton]
  refine or_congr ?_ (or_congr ?_ Iff.rfl)
  · simp only [List.mem_map, Prod.exists, List.mk_mem_zipIdx_iff_getElem?, eq_comm (b := cell)]
  · simp only [List.mem_flatMap, Prod.exists, List.mk_mem_zipIdx_iff_getElem?]

theorem mem_lifeRowCells {r : ℕ} {row : LifeRow F} {cell : Cell F} :
    cell ∈ lifeRowCells r row ↔
      (∃ v c, row.values[c]? = some v ∧
        cell = ⟨r, c + 1, .given v, if c = 0 then py "General" else py "0.0##"⟩) ∨
      ∃ f k, (f, k) ∈ (lifeFormulas r).zipIdx ∧ cell = ⟨r, k + 7, .text f.1, f.2⟩ := by
  rw [lifeRowCells, List.mem_append]
  refine or_congr ?_ ?_
  · simp only [List.mem_map, Prod.exists, List.mk_mem_zipIdx_iff_getElem?, eq_comm (b := cell)]
  · simp only [List.mem_map, Prod.exists, eq_comm (b := cell)]

end

/-! ## Texts of a table -/

section

variable [Unicode]

/-- A text of the table that a cell shows begins with `=`. -/
def TableLive (header : List PyStr) (rows : List (List PyStr)) : Prop :=
  ∃ cell ∈ header ++ rows.flatten, isFormula (plain cell) = true

theorem mem_padTo {width : ℕ} {row : List PyStr} {cell : PyStr} (hlive : isFormula (plain cell) = true) :
    cell ∈ padTo width row ↔ cell ∈ row := by
  rw [padTo, List.mem_append]
  refine or_iff_left fun h ↦ ?_
  rw [(List.mem_replicate.mp h).2, plain_nil] at hlive
  cases hlive

theorem tableLive_iff {header : List PyStr} {rows : List (List PyStr)} :
    TableLive header rows ↔
      ∃ cell, isFormula (plain cell) = true ∧
        (cell ∈ (gridOf header rows).header ∨ ∃ row ∈ (gridOf header rows).rows, cell ∈ row) := by
  constructor
  · rintro ⟨cell, hcell, hlive⟩
    refine ⟨cell, hlive, ?_⟩
    rcases List.mem_append.mp hcell with hcell | hcell
    · exact Or.inl ((mem_padTo hlive).mpr hcell)
    · obtain ⟨row, hrow, hcell⟩ := List.mem_flatten.mp hcell
      exact Or.inr ⟨_, List.mem_map_of_mem hrow, (mem_padTo hlive).mpr hcell⟩
  · rintro ⟨cell, hlive, hcell | ⟨row, hrow, hcell⟩⟩
    · exact ⟨cell, List.mem_append_left _ ((mem_padTo hlive).mp hcell), hlive⟩
    · obtain ⟨given, hgiven, rfl⟩ := List.mem_map.mp hrow
      exact ⟨cell, List.mem_append_right _ (List.mem_flatten.mpr ⟨given, hgiven, (mem_padTo hlive).mp hcell⟩), hlive⟩

theorem Grid.rows_eq (g : Grid) : g.rows = g.data ++ g.total.toList := by
  rw [Grid.data]
  cases htotal : g.total with
  | none => simp
  | some last =>
    have hlast : g.rows.getLast? = some last := (Option.filter_eq_some_iff.mp htotal).1
    simpa using (List.dropLast_append_getLast? last hlast).symm

variable {F : Type}

/-- A cell of the data that holds a formula holds its own text. -/
theorem string_dataCell {g : Grid} {row c : ℕ} {raw s : PyStr}
    (h : (g.dataCell row c raw : Cell F).value.string = some s) : s = plain raw := by
  rw [Grid.dataCell] at h
  split at h
  · split_ifs at h
    · cases h
    · split at h <;> cases h
  · exact (Option.some.inj h).symm

theorem dataCell_of_isFormula {g : Grid} {row c : ℕ} {raw : PyStr} (h : isFormula (plain raw) = true) :
    (g.dataCell row c raw : Cell F) = textCell row (c + 1) (plain raw) := by
  rw [Grid.dataCell, numeric_of_isFormula h]
  cases g.unit c <;> rfl

theorem not_checkedTotal_of_isFormula {g : Grid} {c : ℕ} {raw : PyStr} (h : isFormula (plain raw) = true) :
    g.checkedTotal c raw = false := by
  rw [Grid.checkedTotal, numeric_of_isFormula h]
  cases g.unit c <;> rfl

theorem isFormula_label [Casing] (g : Grid) (c : ℕ) (name : PyStr) :
    isFormula (g.label c name) = isFormula (plain name) := by
  rw [Grid.label]
  cases g.unit c with
  | none => rfl
  | some unit =>
    simp only
    split_ifs
    · rw [List.append_assoc, List.append_assoc]
      exact isFormula_append rfl
    · rfl

end

/-! ## What is allowed -/

section

variable [Unicode] [Casing] {F : Type}

/-- The total of a column that was checked to add up. -/
def Grid.CheckedTotal (g : Grid) (cell : Cell F) : Prop :=
  ∃ last raw c, g.total = some last ∧ (raw, c) ∈ last.zipIdx ∧ 0 < c ∧ g.checkedTotal c raw = true ∧
    cell.row = g.data.length + 2 ∧ cell.column = c + 1 ∧ cell.value = .text (g.sumFormula c)

/-- One of the three formulas of a row of remaining life. -/
def LifeFormula (rows : List (LifeRow F)) (cell : Cell F) : Prop :=
  ∃ r f k, r < rows.length ∧ (f, k) ∈ (lifeFormulas (r + 2)).zipIdx ∧ cell.row = r + 2 ∧
    cell.column = k + 7 ∧ cell.value = .text f.1

/-- The formulas a sheet may hold. -/
def Page.Allowed : Page F → Cell F → Prop
  | .table header rows, cell => (gridOf header rows).CheckedTotal cell
  | .life rows _, cell => LifeFormula rows cell
  | .notes _, _ | .about _ _ _, _ => False

/-- Every formula of the sheet is one it may hold. -/
def Page.Sound (page : Page F) : Prop :=
  ∀ cell ∈ page.cells, ∀ s, cell.value.string = some s → isFormula s = true → page.Allowed cell

/-- The workbook contains no formula but checked totals and those of remaining life. -/
def SoundBook (book : List (Sheet F)) : Prop := ∀ sheet ∈ book, sheet.page.Sound

/-! ## Tables -/

/-- The cells of a table: its header, its data, and its total. -/
theorem mem_writeTable {header : List PyStr} {rows : List (List PyStr)} {cell : Cell F} :
    cell ∈ writeTable header rows ↔
      (∃ name c, (gridOf header rows).header[c]? = some name ∧
        cell = textCell 1 (c + 1) ((gridOf header rows).label c name)) ∨
      (∃ row r raw c, (gridOf header rows).data[r]? = some row ∧ row[c]? = some raw ∧
        cell = (gridOf header rows).dataCell (r + 2) c raw) ∨
      ∃ last, (gridOf header rows).total = some last ∧
        (cell = textCell ((gridOf header rows).data.length + 2) 1 (plain (last.headD [])) ∨
          ∃ raw c, last[c]? = some raw ∧ 0 < c ∧ cell = (gridOf header rows).totalCell c raw) := by
  rw [writeTable, List.mem_append, List.mem_append, or_assoc]
  refine or_congr ?_ (or_congr ?_ ?_)
  · simp only [List.mem_map, Prod.exists, List.mk_mem_zipIdx_iff_getElem?, eq_comm (b := cell)]
  · simp only [List.mem_flatMap, List.mem_map, Prod.exists, List.mk_mem_zipIdx_iff_getElem?, eq_comm (b := cell)]
    constructor
    · rintro ⟨row, r, hrow, raw, c, hraw, hcell⟩
      exact ⟨row, r, raw, c, hrow, hraw, hcell⟩
    · rintro ⟨row, r, raw, c, hrow, hraw, hcell⟩
      exact ⟨row, r, hrow, raw, c, hraw, hcell⟩
  · cases (gridOf header rows).total with
    | none => simp
    | some last =>
      simp only [List.mem_cons, List.mem_map, Prod.exists, mem_zipIdx_tail, Option.some.injEq,
        exists_eq_left', and_assoc, eq_comm (b := cell)]

/-- A text of the table that begins with `=` stands in a cell as it is, and not in place of a total
that adds up. -/
theorem exists_textCell_of_live {header : List PyStr} {rows : List (List PyStr)} (h : TableLive header rows) :
    ∃ cell ∈ (writeTable header rows : List (Cell F)), ∃ s, cell.value.string = some s ∧
      isFormula s = true ∧ ¬ (gridOf header rows).CheckedTotal cell := by
  obtain ⟨raw, hraw, hplace⟩ := tableLive_iff.mp h
  rcases hplace with hheader | ⟨row, hrow, hmem⟩
  · obtain ⟨c, hc⟩ := List.mem_iff_getElem?.mp hheader
    refine ⟨_, mem_writeTable.mpr (Or.inl ⟨raw, c, hc, rfl⟩), _, rfl, ?_, ?_⟩
    · rw [isFormula_label]
      exact hraw
    · rintro ⟨-, -, -, -, -, -, -, hplaced, -⟩
      rw [textCell_row] at hplaced
      omega
  obtain ⟨c, hc⟩ := List.mem_iff_getElem?.mp hmem
  rw [Grid.rows_eq] at hrow
  rcases List.mem_append.mp hrow with hrow | hrow
  · obtain ⟨r, hr⟩ := List.mem_iff_getElem?.mp hrow
    obtain ⟨hlt, -⟩ := List.getElem?_eq_some_iff.mp hr
    refine ⟨_, mem_writeTable.mpr (Or.inr (Or.inl ⟨row, r, raw, c, hr, hc, rfl⟩)), plain raw, ?_, hraw, ?_⟩
    · rw [dataCell_of_isFormula hraw]
      rfl
    · rw [dataCell_of_isFormula hraw]
      rintro ⟨-, -, -, -, -, -, -, hplaced, -⟩
      rw [textCell_row] at hplaced
      omega
  · have htotal := Option.mem_toList.mp hrow
    cases c with
    | zero =>
      have hhead : row.headD [] = raw := by
        cases row with
        | nil => cases hc
        | cons first rest => exact Option.some.inj hc
      refine ⟨_, mem_writeTable.mpr (Or.inr (Or.inr ⟨row, htotal, Or.inl rfl⟩)), plain raw, ?_, hraw, ?_⟩
      · rw [hhead]
        rfl
      · rintro ⟨-, -, c, -, -, hpos, -, -, hplaced, -⟩
        rw [textCell_column] at hplaced
        omega
    | succ c =>
      have hcell : ((gridOf header rows).totalCell (c + 1) raw : Cell F) =
          textCell ((gridOf header rows).data.length + 2) (c + 2) (plain raw) := by
        rw [Grid.totalCell, not_checkedTotal_of_isFormula hraw]
        rfl
      refine ⟨_, mem_writeTable.mpr (Or.inr (Or.inr ⟨row, htotal, Or.inr ⟨raw, c + 1, hc, Nat.succ_pos c, rfl⟩⟩)),
        plain raw, ?_, hraw, ?_⟩
      · rw [hcell]
        rfl
      · rw [hcell]
        rintro ⟨last, stated, c', hlast, hstated, -, hchecked, -, hplaced, -⟩
        obtain rfl : c + 1 = c' := by
          rw [textCell_column] at hplaced
          omega
        obtain rfl : row = last := Option.some.inj (htotal.symm.trans hlast)
        rw [List.mk_mem_zipIdx_iff_getElem?, hc] at hstated
        obtain rfl : raw = stated := Option.some.inj hstated
        rw [not_checkedTotal_of_isFormula hraw] at hchecked
        cases hchecked

/-- A formula of a table's sheet is a checked total, or a text of the table that begins with `=`. -/
theorem checkedTotal_or_live {header : List PyStr} {rows : List (List PyStr)} {cell : Cell F}
    (hcell : cell ∈ writeTable header rows) {s : PyStr} (hs : cell.value.string = some s)
    (hformula : isFormula s = true) : (gridOf header rows).CheckedTotal cell ∨ TableLive header rows := by
  rcases mem_writeTable.mp hcell with ⟨name, c, hname, rfl⟩ | ⟨row, r, raw, c, hrow, hraw, rfl⟩ |
    ⟨last, htotal, rfl | ⟨raw, c, hraw, hpos, rfl⟩⟩
  · obtain rfl := Option.some.inj hs
    rw [isFormula_label] at hformula
    exact Or.inr (tableLive_iff.mpr ⟨name, hformula, Or.inl (List.mem_of_getElem? hname)⟩)
  · rw [string_dataCell hs] at hformula
    refine Or.inr (tableLive_iff.mpr ⟨raw, hformula, Or.inr ⟨row, ?_, List.mem_of_getElem? hraw⟩⟩)
    rw [Grid.rows_eq]
    exact List.mem_append_left _ (List.mem_of_getElem? hrow)
  all_goals
    have hlast : last ∈ (gridOf header rows).rows := by
      rw [Grid.rows_eq, htotal]
      simp
  · obtain rfl := Option.some.inj hs
    cases last with
    | nil =>
      rw [List.headD_nil, plain_nil] at hformula
      cases hformula
    | cons first rest =>
      exact Or.inr (tableLive_iff.mpr ⟨first, hformula, Or.inr ⟨_, hlast, List.mem_cons_self⟩⟩)
  · rw [Grid.totalCell] at hs ⊢
    cases hchecked : (gridOf header rows).checkedTotal c raw with
    | true =>
      exact Or.inl ⟨last, raw, c, htotal, List.mk_mem_zipIdx_iff_getElem?.mpr hraw, hpos, hchecked, rfl, rfl, rfl⟩
    | false =>
      rw [hchecked] at hs
      obtain rfl := Option.some.inj hs
      exact Or.inr (tableLive_iff.mpr ⟨raw, hformula, Or.inr ⟨last, hlast, List.mem_of_getElem? hraw⟩⟩)

/-- A sheet of a table holds no other formula just where no text of the table begins with `=`. -/
theorem table_sound_iff {header : List PyStr} {rows : List (List PyStr)} :
    (Page.table header rows : Page F).Sound ↔ ¬ TableLive header rows := by
  constructor
  · intro hsound hlive
    obtain ⟨cell, hcell, s, hs, hformula, hnot⟩ := exists_textCell_of_live (F := F) hlive
    exact hnot (hsound cell hcell s hs hformula)
  · intro hlive cell hcell s hs hformula
    exact (checkedTotal_or_live hcell hs hformula).resolve_right hlive

/-! ## The other sheets -/

/-- An input of the calculation that begins with `=`. -/
def LifeLive (rows : List (LifeRow F)) : Prop :=
  ∃ row ∈ rows, ∃ s, Json.str s ∈ row.values ∧ isFormula s = true

theorem life_sound_iff {rows : List (LifeRow F)} {basis : Option PyStr} :
    (Page.life rows basis).Sound ↔ ¬ LifeLive rows := by
  constructor
  · rintro hsound ⟨row, hrow, s, hs, hformula⟩
    obtain ⟨r, hr⟩ := List.mem_iff_getElem?.mp hrow
    obtain ⟨c, hc⟩ := List.mem_iff_getElem?.mp hs
    have hinputs : c < 6 := (List.getElem?_eq_some_iff.mp hc).1
    obtain ⟨-, -, k, -, -, -, hplaced, -⟩ := hsound _ (mem_remainingLifeSheet.mpr (Or.inr (Or.inl
      ⟨row, r, hr, mem_lifeRowCells.mpr (Or.inl ⟨_, c, hc, rfl⟩)⟩))) s rfl hformula
    simp only at hplaced
    omega
  · intro hlive cell hcell s hs hformula
    rcases mem_remainingLifeSheet.mp hcell with ⟨name, c, hname, rfl⟩ | ⟨row, r, hrow, hcell⟩ | rfl
    · obtain rfl := Option.some.inj hs
      have hheader : lifeHeader.all (fun name ↦ !isFormula name) = true := by decide
      have hnot := List.all_eq_true.mp hheader _ (List.mem_of_getElem? hname)
      rw [hformula] at hnot
      cases hnot
    · rcases mem_lifeRowCells.mp hcell with ⟨v, c, hv, rfl⟩ | ⟨f, k, hf, rfl⟩
      · obtain rfl := given_string hs
        exact absurd ⟨row, List.mem_of_getElem? hrow, s, List.mem_of_getElem? hv, hformula⟩ hlive
      · exact ⟨r, f, k, (List.getElem?_eq_some_iff.mp hrow).1, hf, rfl, rfl, rfl⟩
    · obtain rfl := Option.some.inj hs
      cases hformula

theorem notes_sound_iff {lines : List PyStr} :
    (Page.notes lines : Page F).Sound ↔ ∀ line ∈ lines, isFormula line = false := by
  have hmem (cell : Cell F) : cell ∈ (Page.notes lines : Page F).cells ↔
      ∃ line r, lines[r]? = some line ∧ cell = textCell (r + 1) 1 line := by
    simp only [Page.cells, List.mem_map, Prod.exists, List.mk_mem_zipIdx_iff_getElem?, eq_comm (b := cell)]
  constructor
  · intro hsound line hline
    obtain ⟨r, hr⟩ := List.mem_iff_getElem?.mp hline
    rw [Bool.eq_false_iff]
    exact fun hformula ↦ hsound _ ((hmem _).mpr ⟨line, r, hr, rfl⟩) line rfl hformula
  · intro hlines cell hcell s hs hformula
    obtain ⟨line, r, hr, rfl⟩ := (hmem cell).mp hcell
    obtain rfl := Option.some.inj hs
    rw [hlines line (List.mem_of_getElem? hr)] at hformula
    cases hformula

/-- A text of the page about the workbook that begins with `=`. -/
def AboutLive (title : PyStr) (record : List (PyStr × PyStr)) : Prop :=
  isFormula (plain title) = true ∨ ∃ p ∈ record, isFormula p.1 = true ∨ isFormula (plain p.2) = true

theorem about_sound_iff {title : PyStr} {record : List (PyStr × PyStr)} {sources : List PyStr} :
    (Page.about title record sources : Page F).Sound ↔ ¬ AboutLive title record := by
  constructor
  · rintro hsound (htitle | ⟨p, hp, hlive⟩)
    · exact hsound (textCell 1 1 (plain title)) (by simp [Page.cells, aboutCells]) _ rfl htitle
    · obtain ⟨r, hr⟩ := List.mem_iff_getElem?.mp hp
      have hmem : ∀ cell ∈ ([textCell (r + 4) 1 p.1, textCell (r + 4) 2 (plain p.2)] : List (Cell F)),
          cell ∈ (Page.about title record sources).cells := by
        intro cell hcell
        refine List.mem_append_left _ (List.mem_append_right _ (List.mem_flatMap.mpr ⟨(p, r), ?_, hcell⟩))
        exact List.mk_mem_zipIdx_iff_getElem?.mpr hr
      rcases hlive with hlive | hlive
      · exact hsound _ (hmem _ List.mem_cons_self) _ rfl hlive
      · exact hsound _ (hmem _ (List.mem_cons_of_mem _ List.mem_cons_self)) _ rfl hlive
  · intro hlive cell hcell s hs hformula
    rw [AboutLive, not_or] at hlive
    rcases List.mem_append.mp hcell with hcell | hcell
    · rcases List.mem_append.mp hcell with hcell | hcell
      · rcases List.mem_pair.mp hcell with rfl | rfl
        · obtain rfl := Option.some.inj hs
          exact hlive.1 hformula
        · obtain rfl := Option.some.inj hs
          cases hformula
      · obtain ⟨⟨p, r⟩, hp, hcell⟩ := List.mem_flatMap.mp hcell
        have hrecord : p ∈ record := List.mem_of_getElem? (List.mk_mem_zipIdx_iff_getElem?.mp hp)
        rcases List.mem_pair.mp hcell with rfl | rfl
        · obtain rfl := Option.some.inj hs
          exact hlive.2 ⟨p, hrecord, Or.inl hformula⟩
        · obtain rfl := Option.some.inj hs
          exact hlive.2 ⟨p, hrecord, Or.inr hformula⟩
    · split_ifs at hcell
      · cases hcell
      · rcases List.mem_cons.mp hcell with rfl | hcell
        · obtain rfl := Option.some.inj hs
          cases hformula
        · obtain ⟨p, -, rfl⟩ := List.mem_map.mp hcell
          obtain rfl := Option.some.inj hs
          cases hformula

/-! ## The workbook as it is built -/

/-- A text of the block that a cell shows begins with `=`. -/
def LiveBlock : Block → Prop
  | .heading _ text | .para text => isFormula (plain text) = true
  | .table header rows => TableLive header rows
  | .items _ | .code _ | .image _ _ => False

def Building.Sound (b : Building F) : Prop :=
  (∀ sheet ∈ b.sheets, sheet.page.Sound) ∧ ∀ line ∈ b.prose, isFormula line = false

theorem addProse_sound_iff (b : Building F) (lines : List PyStr) :
    (b.addProse lines).Sound ↔ b.Sound ∧ ∀ line ∈ lines, isFormula line = false := by
  rw [Building.Sound, Building.Sound, Building.addProse, List.forall_mem_append, and_assoc]

theorem append_sound_iff (b : Building F) (name : PyStr) (page : Page F) :
    (b.append name page).Sound ↔ b.Sound ∧ page.Sound := by
  simp only [Building.Sound, Building.append, Building.use, List.forall_mem_append, List.forall_mem_singleton]
  exact and_right_comm

theorem prepend_sound_iff (b : Building F) (name : PyStr) (page : Page F) :
    (b.prepend name page).Sound ↔ b.Sound ∧ page.Sound := by
  simp only [Building.Sound, Building.prepend, Building.use, List.forall_mem_cons]
  tauto

theorem add_sound_iff (b : Building F) (block : Block) :
    (b.add block).Sound ↔ b.Sound ∧ ¬ LiveBlock block := by
  cases block with
  | heading level text =>
    rw [Building.add, addProse_sound_iff, List.forall_mem_singleton, LiveBlock, Bool.not_eq_true]
    rfl
  | para text => rw [Building.add, addProse_sound_iff, List.forall_mem_singleton, LiveBlock, Bool.not_eq_true]
  | items items =>
    rw [Building.add, addProse_sound_iff, LiveBlock]
    refine and_congr_right fun _ ↦ iff_of_true ?_ not_false
    intro line hline
    obtain ⟨item, -, rfl⟩ := List.mem_map.mp hline
    rfl
  | table header rows =>
    rw [Building.add, append_sound_iff, table_sound_iff, LiveBlock]
    rfl
  | code text => exact (and_iff_left not_false).symm
  | image alt fileId => exact (and_iff_left not_false).symm

theorem foldl_add_sound_iff (found : List Block) (b : Building F) :
    (found.foldl Building.add b).Sound ↔ b.Sound ∧ ∀ block ∈ found, ¬ LiveBlock block := by
  induction found generalizing b with
  | nil => simp
  | cons block found ih => rw [List.foldl_cons, ih, add_sound_iff, List.forall_mem_cons, and_assoc]

/-- The notes hold the words of the answer. -/
theorem soundBook_addNotes_iff (b : Building F) : SoundBook b.addNotes.sheets ↔ b.Sound := by
  rw [Building.addNotes]
  split_ifs with hprose
  · rw [List.isEmpty_iff] at hprose
    simp [SoundBook, Building.Sound, hprose]
  · rw [SoundBook, Building.append, List.forall_mem_append, List.forall_mem_singleton, notes_sound_iff]
    rfl

variable [Runtime F]

/-- A calculation that is rebuilt has an input that begins with `=`. -/
def LiveCalculation (calculation : Json F) : Prop :=
  ∃ rows basis, lifeRows calculation = some (some (rows, basis)) ∧ LifeLive rows

theorem addCalculation_sound_iff {b b' : Building F} {calculation : Json F}
    (h : b.addCalculation calculation = some b') : b'.Sound ↔ b.Sound ∧ ¬ LiveCalculation calculation := by
  obtain ⟨found, hfound, rfl⟩ := Option.map_eq_some_iff.mp h
  cases found with
  | none =>
    refine (and_iff_left ?_).symm
    rintro ⟨rows, basis, hrows, -⟩
    cases hfound.symm.trans hrows
  | some found =>
    obtain ⟨rows, basis⟩ := found
    rw [prepend_sound_iff, life_sound_iff]
    refine and_congr_right fun _ ↦ not_congr ⟨fun hlive ↦ ⟨rows, basis, hfound, hlive⟩, ?_⟩
    rintro ⟨rows', basis', hrows, hlive⟩
    cases hfound.symm.trans hrows
    exact hlive

theorem foldlM_addCalculation_sound_iff {calculations : List (Json F)} {b b' : Building F}
    (h : calculations.foldlM Building.addCalculation b = some b') :
    b'.Sound ↔ b.Sound ∧ ∀ calculation ∈ calculations, ¬ LiveCalculation calculation := by
  induction calculations generalizing b with
  | nil =>
    obtain rfl : b = b' := Option.some.inj h
    simp
  | cons calculation calculations ih =>
    rw [List.foldlM_cons] at h
    obtain ⟨next, hnext, h⟩ := Option.bind_eq_some_iff.mp h
    rw [ih h, addCalculation_sound_iff hnext, List.forall_mem_cons, and_assoc]

/-- The workbook of an answer contains no formula but checked totals and those of remaining life if and
only if no heading, paragraph or table cell of the answer, no input of a calculation, and neither its
title nor the record begins with `=`. -/
theorem only_checked_formulas_iff {accepts : CellValue F → Bool} {title body : PyStr}
    {record : List (PyStr × PyStr)} {sources : List PyStr} {calculations : List (Json F)}
    {book : List (Sheet F)} (h : buildXlsx accepts title body record sources calculations = some book) :
    SoundBook book ↔ (∀ block ∈ blocks body, ¬ LiveBlock block) ∧
      (∀ calculation ∈ calculations, ¬ LiveCalculation calculation) ∧ ¬ AboutLive title record := by
  obtain ⟨b, hb, h⟩ := Option.bind_eq_some_iff.mp h
  have hbook : (b.addNotes.append (py "About this workbook") (.about title record sources)).sheets = book := by
    simp only at h
    split_ifs at h
    exact Option.some.inj h
  have hempty : ({} : Building F).Sound := ⟨by simp, by simp⟩
  have hnotes : SoundBook b.addNotes.sheets ↔ (∀ block ∈ blocks body, ¬ LiveBlock block) ∧
      ∀ calculation ∈ calculations, ¬ LiveCalculation calculation := by
    rw [soundBook_addNotes_iff, foldlM_addCalculation_sound_iff hb, foldl_add_sound_iff, and_iff_right hempty]
  rw [← and_assoc, ← hnotes, ← hbook, SoundBook, Building.append, List.forall_mem_append,
    List.forall_mem_singleton, about_sound_iff]
  rfl

end

/-! ## Two answers -/

section

local instance : Unicode := asciiTables
local instance : Casing := asciiCasing
local instance : Runtime FloatLit := Sop.textRuntime

/-- A table of costs and their total. -/
def costs : PyStr :=
  py "| Item | Cost |\n|---|---|\n| Seal | 40 |\n| Bearing | 60.5 |\n| Total | 100.5 |"

/-- The workbook of the costs holds their checked total, and no other formula. -/
theorem costs_sound : ∃ book : List (Sheet FloatLit),
    buildXlsx (fun _ ↦ true) (py "Costs") costs [] [] [] = some book ∧ SoundBook book := by
  have hmade : (buildXlsx (fun _ ↦ true) (py "Costs") costs [] [] [] : Option (List (Sheet FloatLit))).isSome = true := by
    decide +kernel
  obtain ⟨book, hbook⟩ := Option.isSome_iff_exists.mp hmade
  refine ⟨book, hbook, (only_checked_formulas_iff hbook).mpr ⟨?_, by simp, ?_⟩⟩
  · have hblocks : blocks costs = [.table [py "Item", py "Cost"]
        [[py "Seal", py "40"], [py "Bearing", py "60.5"], [py "Total", py "100.5"]]] := by decide +kernel
    rw [hblocks, List.forall_mem_singleton]
    rintro ⟨cell, hcell, hlive⟩
    have hplain : ([py "Item", py "Cost"] ++ [[py "Seal", py "40"], [py "Bearing", py "60.5"],
        [py "Total", py "100.5"]].flatten).all (fun cell ↦ !isFormula (plain cell)) = true := by decide +kernel
    have hnot := List.all_eq_true.mp hplain cell hcell
    rw [hlive] at hnot
    cases hnot
  · have htitle : isFormula (plain (py "Costs")) = false := by decide +kernel
    rintro (h | ⟨p, hp, -⟩)
    · rw [htitle] at h
      cases h
    · cases hp

/-- A sheet of notes with a formula in it. -/
def liveNotes {F : Type} (sheet : Sheet F) : Bool :=
  match sheet.page with
  | .notes lines => lines.any isFormula
  | .table _ _ | .life _ _ | .about _ _ _ => false

/-- A paragraph of the answer that begins with `=` is a live formula of the notes. -/
theorem paragraph_is_live : ∃ book : List (Sheet FloatLit),
    buildXlsx (fun _ ↦ true) (py "Costs") (py "=HYPERLINK(A1)") [] [] [] = some book ∧ ¬ SoundBook book := by
  have hlive : (buildXlsx (fun _ ↦ true) (py "Costs") (py "=HYPERLINK(A1)") [] [] [] :
      Option (List (Sheet FloatLit))).any (·.any liveNotes) = true := by decide +kernel
  obtain ⟨book, hbook, hany⟩ := (Option.any_eq_true _ _).mp hlive
  obtain ⟨⟨name, page⟩, hsheet, hnotes⟩ := List.any_eq_true.mp hany
  refine ⟨book, hbook, fun hsound ↦ ?_⟩
  cases page with
  | notes lines =>
    obtain ⟨line, hline, hformula⟩ := List.any_eq_true.mp hnotes
    rw [notes_sound_iff.mp (hsound _ hsheet) line hline] at hformula
    cases hformula
  | table | life | about => cases hnotes

end

end FourCE.Workbook

import FourCE.Tools.References
import FourCE.Tools.SheetCopy

/-!
# What the changes do to a worksheet

One lemma for each operation of `_apply`: which cells it sets, what they hold, and that every other
cell is left as it was.  A column is always added behind the last one.
-/

namespace FourCE.Tools

open FourCE.Python

variable {K F : Type}

/-! ## Cells -/

@[simp] theorem Worksheet.value_put (w : Worksheet K) (p q : Position) (v : Value K) :
    (w.put p v).value q = if q = p then v else w.value q := by
  rw [value, put, List.lookup_cons]
  by_cases h : q = p
  · simp [h]
  · simp [h, value, beq_eq_false_iff_ne.mpr h]

@[simp] theorem Worksheet.maxColumn_put (w : Worksheet K) (p : Position) (v : Value K) :
    (w.put p v).maxColumn = max p.1 w.maxColumn := rfl

theorem Worksheet.one_le_maxColumn (w : Worksheet K) : 1 ≤ w.maxColumn := by
  rw [maxColumn]
  induction w.cells with
  | nil => exact le_rfl
  | cons c cells ih => exact ih.trans (le_max_right _ _)

theorem Worksheet.le_maxColumn {w : Worksheet K} {p : Position} {v : Value K} (h : (p, v) ∈ w.cells) :
    p.1 ≤ w.maxColumn := by
  rw [maxColumn]
  revert h
  induction w.cells with
  | nil => exact nofun
  | cons c cells ih =>
    intro h
    rcases List.mem_cons.mp h with rfl | h
    · exact le_max_left _ _
    · exact (ih h).trans (le_max_right _ _)

/-- Nothing stands behind the last column. -/
theorem Worksheet.value_of_maxColumn_lt {w : Worksheet K} {p : Position} (h : w.maxColumn < p.1) :
    w.value p = .none := by
  rw [value]
  cases hlookup : w.cells.lookup p with
  | none => rfl
  | some v =>
    obtain ⟨before, after, hcells, -⟩ := List.lookup_eq_some_iff.mp hlookup
    have := le_maxColumn (w := w) (p := p) (v := v) (by simp [hcells])
    omega

/-! ## Setting a cell -/

section

variable (px : Openpyxl K F)

/-- What a cell that held `old` holds once a value is assigned to it: what it held, if that is `None`. -/
inductive Assigned (p : Position) (old : Value K) : Json F → Value K → Prop
  | kept : Assigned p old .null old
  | set {v : Json F} {x : Value K} (h : px.assign p v = .ok x) : Assigned p old v x

variable {px}

theorem except_bind_ok {ε α β : Type} {m : Except ε α} {f : α → Except ε β} {b : β}
    (h : (m >>= f) = .ok b) : ∃ a, m = .ok a ∧ f a = .ok b := by
  cases m with
  | error e => cases h
  | ok a => exact ⟨a, rfl, h⟩

theorem orFail_ok {α : Type} {result : Except PyStr α} {a : α} (h : orFail result = .ok a) : result = .ok a := by
  cases result with
  | error e => cases h
  | ok b =>
    cases h
    rfl

theorem setCell_ok {w w' : Worksheet K} {p : Position} {v : Json F} (h : setCell px w p v = .ok w') :
    ∃ x, w' = w.put p x ∧ Assigned px p (w.value p) v x := by
  rw [setCell.eq_def] at h
  split at h
  · cases h
    exact ⟨w.value p, rfl, .kept⟩
  · obtain ⟨x, hx, h⟩ := except_bind_ok h
    cases h
    exact ⟨x, rfl, .set (orFail_ok hx)⟩

/-! ## Filling a column -/

variable [Floats K] [Unicode] [Casing] [Runtime F]

/-- The cells of a column that has been filled. -/
structure Filled (px : Openpyxl K F) (change : Json F) (column : ℕ) (rows : List ℕ) (w w' : Worksheet K) : Prop where
  set : ∀ row ∈ rows, ∃ v, columnValue change row = .ok v ∧
    Assigned px (column, row) (w.value (column, row)) v (w'.value (column, row))
  other : ∀ q, (∀ row ∈ rows, q ≠ (column, row)) → w'.value q = w.value q
  maxColumn : column ≤ w.maxColumn → w'.maxColumn = w.maxColumn

omit [Floats K] [Unicode] [Casing] in
theorem fillColumn_ok {change : Json F} {column : ℕ} {rows : List ℕ} (hrows : rows.Nodup) {w w' : Worksheet K}
    (h : fillColumn px change column rows w = .ok w') : Filled px change column rows w w' := by
  induction rows generalizing w with
  | nil =>
    cases h
    exact ⟨fun _ ↦ nofun, fun _ _ ↦ rfl, fun _ ↦ rfl⟩
  | cons row rows ih =>
    rw [List.nodup_cons] at hrows
    obtain ⟨v, hv, h⟩ := except_bind_ok h
    obtain ⟨w₁, hw₁, h⟩ := except_bind_ok h
    obtain ⟨x, rfl, hx⟩ := setCell_ok hw₁
    have hrest := ih hrows.2 h
    have hfirst : w'.value (column, row) = x := by
      rw [hrest.other, Worksheet.value_put, if_pos rfl]
      rintro r hr ⟨⟩
      exact hrows.1 hr
    refine ⟨fun r hr ↦ ?_, fun q hq ↦ ?_, fun hle ↦ ?_⟩
    · rcases List.mem_cons.mp hr with rfl | hr
      · exact ⟨v, hv, by rwa [hfirst]⟩
      · obtain ⟨u, hu, hassigned⟩ := hrest.set r hr
        rw [Worksheet.value_put, if_neg] at hassigned
        · exact ⟨u, hu, hassigned⟩
        · rintro ⟨⟩
          exact hrows.1 hr
    · rw [hrest.other q fun r hr ↦ hq r (List.mem_cons_of_mem row hr), Worksheet.value_put,
        if_neg (hq row List.mem_cons_self)]
    · rw [hrest.maxColumn (by rw [Worksheet.maxColumn_put]; exact le_max_left _ _), Worksheet.maxColumn_put,
        max_eq_right hle]

/-! ## A change -/

/-- What a change that adds a column does. -/
structure Added (px : Openpyxl K F) (last : ℕ) (change : Json F) (w w' : Worksheet K) (written : List PyStr) :
    Prop where
  maxColumn : w'.maxColumn = w.maxColumn + 1
  written : written = (dataRows last).map (refText (w.maxColumn + 1))
  header : px.assign (w.maxColumn + 1, 1) (.str (headerOf change)) = .ok (w'.value (w.maxColumn + 1, 1))
  set : ∀ row ∈ dataRows last, ∃ v, columnValue change row = .ok v ∧
    Assigned px (w.maxColumn + 1, row) .none v (w'.value (w.maxColumn + 1, row))
  other : ∀ q : Position, q.1 ≤ w.maxColumn → w'.value q = w.value q

omit [Unicode] [Casing] in
theorem mem_dataRows {last row : ℕ} : row ∈ dataRows last ↔ 2 ≤ row ∧ row ≤ last := by
  rw [dataRows, List.mem_range'_1]
  omega

omit [Floats K] [Unicode] [Casing] in
theorem addColumn_ok {last : ℕ} {change : Json F} {w w' : Worksheet K} {written : List PyStr} {note : PyStr}
    (h : addColumn px last w change = .ok (w', written, note)) : Added px last change w w' written := by
  obtain ⟨w₁, hw₁, h⟩ := except_bind_ok h
  obtain ⟨w₂, hw₂, h⟩ := except_bind_ok h
  obtain ⟨what, -, h⟩ := except_bind_ok h
  cases h
  obtain ⟨x, rfl, hx⟩ := setCell_ok hw₁
  have hfilled := fillColumn_ok List.nodup_range' hw₂
  have hlast := w.one_le_maxColumn
  have hreach (q : Position) : ((w.put (w.maxColumn + 1, 1) x).reach (w.maxColumn + 1 - 1, 1)).value q =
      (w.put (w.maxColumn + 1, 1) x).value q := by
    rw [Worksheet.reach, Worksheet.value_put]
    split_ifs with hq
    · rw [hq]
    · rfl
  have hcolumns : ((w.put (w.maxColumn + 1, 1) x).reach (w.maxColumn + 1 - 1, 1)).maxColumn = w.maxColumn + 1 := by
    rw [Worksheet.reach, Worksheet.maxColumn_put, Worksheet.maxColumn_put]
    omega
  refine ⟨?_, rfl, ?_, fun row hrow ↦ ?_, fun q hq ↦ ?_⟩
  · rw [hfilled.maxColumn hcolumns.ge, hcolumns]
  · rw [hfilled.other, hreach, Worksheet.value_put, if_pos rfl]
    · cases hx with
      | set h => exact h
    · rintro row hrow ⟨⟩
      have := (mem_dataRows.mp hrow).1
      omega
  · obtain ⟨v, hv, hassigned⟩ := hfilled.set row hrow
    rw [hreach, Worksheet.value_put, if_neg, Worksheet.value_of_maxColumn_lt (Nat.lt_succ_self _)] at hassigned
    · exact ⟨v, hv, hassigned⟩
    · rintro ⟨⟩
      have := (mem_dataRows.mp hrow).1
      omega
  · rw [hfilled.other, hreach, Worksheet.value_put, if_neg]
    · rintro rfl
      simp at hq
    · rintro row - rfl
      simp at hq

/-- What a change of one cell does. -/
structure Changed (change : Json F) (w w' : Worksheet K) (written : List PyStr) : Prop where
  written : written = [cellRef change]
  maxColumn : w'.maxColumn = max (positionOf (cellRef change)).1 w.maxColumn
  other : ∀ q, q ≠ positionOf (cellRef change) → w'.value q = w.value q

omit [Floats K] in
theorem changeCell_ok {change : Json F} {w w' : Worksheet K} {written : List PyStr} {note : PyStr}
    (h : changeCell px w change = .ok (w', written, note)) : Changed change w w' written := by
  obtain ⟨w₁, hw₁, h⟩ := except_bind_ok h
  obtain ⟨what, -, h⟩ := except_bind_ok h
  cases h
  obtain ⟨x, rfl⟩ : ∃ x, w' = w.put (positionOf (cellRef change)) x := by
    rw [assignCell.eq_def] at hw₁
    split at hw₁
    · cases hw₁
      exact ⟨_, rfl⟩
    · obtain ⟨x, -, hw₁⟩ := except_bind_ok hw₁
      cases hw₁
      exact ⟨x, rfl⟩
  exact ⟨rfl, rfl, fun q hq ↦ by rw [Worksheet.value_put, if_neg hq]⟩

end

end FourCE.Tools

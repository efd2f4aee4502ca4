import FourCE.Tools.CopySteps
import FourCE.Tools.Exact
import FourCE.Tools.UnsafeCells
import FourCE.Sop.Disposition

/-!
# No unsafe formula in a copy

A cell that a list of changes writes is checked in the copy before the copy is kept, except the one
that the name of an added column goes into.  So a copy is safe exactly when those names are.
-/

namespace FourCE.Tools

open FourCE.Python

variable {K F : Type}

section

variable [Unicode] [Casing]

/-! ## Keys of cells -/

omit [Unicode] in
/-- Capitals and digits are the key of a cell as they are. -/
theorem gridKey_eq {s : PyStr} (h : ∀ c ∈ s, isCapital c = true ∨ isAsciiDigit c = true) : gridKey s = s := by
  have hbounds (c : CodePoint) (hc : c ∈ s) : 48 ≤ c.val ∧ c.val ≤ 90 := by
    rcases h c hc with hcapital | hdigit
    · rw [isCapital, Bool.and_eq_true, decide_eq_true_eq, decide_eq_true_eq] at hcapital
      omega
    · rw [isAsciiDigit, Bool.and_eq_true, decide_eq_true_eq, decide_eq_true_eq] at hdigit
      omega
  have hdollar : replace (py "$") [] s = s := by
    rw [show (py "$" : PyStr) = [36] from rfl, replace_single, flatMap_ite_of_notMem]
    intro hmem
    have := (hbounds 36 hmem).1
    simp at this
  rw [gridKey, hdollar, Casing.upper_ascii s fun c hc ↦ by have := hbounds c hc; omega]
  refine (List.map_congr_left fun c hc ↦ ?_).trans (List.map_id s)
  rw [upperAscii, if_neg (by have := hbounds c hc; omega)]
  rfl

omit [Unicode] [Casing] in
theorem isAsciiDigit_of_mem_natText {n : ℕ} {c : CodePoint} (h : c ∈ natText n) : isAsciiDigit c = true := by
  rw [natText, digitsText, List.mem_map] at h
  obtain ⟨d, -, rfl⟩ := h
  rw [isAsciiDigit, digitChar]
  simp only [Bool.and_eq_true, decide_eq_true_eq]
  omega

omit [Unicode] in
theorem gridKey_refText (column row : ℕ) : gridKey (refText column row) = refText column row := by
  refine gridKey_eq fun c hc ↦ ?_
  rcases List.mem_append.mp hc with hc | hc
  · exact Or.inl (isCapital_of_mem_columnLetters hc)
  · exact Or.inr (isAsciiDigit_of_mem_natText hc)

variable [Runtime F]

/-- A change of one cell that is not refused names the cell by the text of its position. -/
theorem refText_positionOf_cellRef {change : Json F} (h : refuseChange change = none)
    (hcolumn : hasKey change (py "column") = false) :
    refText (positionOf (cellRef change)).1 (positionOf (cellRef change)).2 = cellRef change := by
  have hmatch : (reFullmatch REF (Casing.upper (keyOf change (py "cell")).text)).isSome = true := by
    rw [refuseChange] at h
    simp only at h
    split_ifs at h with hshape hbad
    · split at h <;> cases h
    · have hcell : hasKey change (py "cell") = true := by
        by_contra hno
        simp [hcolumn, hno] at hshape
      rwa [hcell, Bool.true_and, Option.isNone_iff_eq_none, ← ne_eq, Option.ne_none_iff_isSome] at hbad
  obtain ⟨m, hm⟩ := Option.isSome_iff_exists.mp hmatch
  obtain ⟨a, letters, b, row, hsplit, href, -⟩ := fullmatch_REF hm
  have hcell : cellRef change = letters ++ row := by
    rw [cellRef, hsplit]
    exact replace_dollar href
  have hhead : ∀ c ∈ row.head?, isCapital c = false := fun c hc ↦
    isCapital_of_isAsciiDigit (href.row.digit c (List.mem_of_mem_head? hc))
  have hcut := takeWhile_isCapital_append href.letters.capital hhead
  have hposition : positionOf (cellRef change) = (columnNumber letters, intOf row) := by
    rw [hcell]
    exact Prod.ext (congrArg columnNumber hcut.1) (congrArg intOf hcut.2)
  rw [hposition, hcell]
  exact refText_of_isRef href

/-! ## What a list of changes writes -/

/-- The cells that changes write into a worksheet with so many columns, each under its reference. -/
def touched (last : ℕ) : ℕ → List (Json F) → List PyStr
  | _, [] => []
  | columns, change :: changes =>
    if hasKey change (py "column") then
      refText (columns + 1) 1 :: (dataRows last).map (refText (columns + 1)) ++ touched last (columns + 1) changes
    else cellRef change :: touched last (max (positionOf (cellRef change)).1 columns) changes

/-- A change sets one cell, and it is this one. -/
def SetsCell (change : Json F) (ref : PyStr) : Prop :=
  hasKey change (py "column") = false ∧ cellRef change = ref

/-- The name of an added column is no unsafe formula, unless a later change takes its cell. -/
def HeadersSafe : ℕ → List (Json F) → Prop
  | _, [] => True
  | columns, change :: changes =>
    if hasKey change (py "column") then
      (UnsafeFormula (headerOf change) → ∃ later ∈ changes, SetsCell later (refText (columns + 1) 1)) ∧
        HeadersSafe (columns + 1) changes
    else HeadersSafe (max (positionOf (cellRef change)).1 columns) changes

/-- openpyxl stores a text that begins with `=` as the formula that it is, and nothing else; a copy
that is read back has the formulas that were stored where they were stored. -/
structure KeepsFormulas (px : Openpyxl K F) : Prop where
  kept : ∀ p s x, startsWith (py "=") s = true → px.assign p (.str s) = .ok x → x = .str s
  only : ∀ p v s, startsWith (py "=") s = true → px.assign p v = .ok (.str s) → v = .str s
  stored : ∀ source w payload sheet, px.save source w = .ok payload → px.load payload = .ok sheet →
    ∀ column row s, startsWith (py "=") s = true →
      (sheet.cells.lookup (refText column row) = some (.str s) ↔ w.value (column, row) = .str s)

/-- The cell holds no unsafe formula. -/
def SafeCell (cells : List (PyStr × Value K)) (ref : PyStr) : Prop :=
  ∀ s, cells.lookup ref = some (.str s) → ¬ UnsafeFormula s

/-! ## The changes, one after the other -/

variable [Floats K] {px : Openpyxl K F}

omit [Floats K] in
theorem applyChange_cases {last : ℕ} {w w' : Worksheet K} {change : Json F} {written : List PyStr}
    {note : PyStr} (h : applyChange px last w change = .ok (w', written, note)) :
    hasKey change (py "column") = true ∧ Added px last change w w' written ∨
      hasKey change (py "column") = false ∧ Changed change w w' written := by
  rw [applyChange] at h
  split_ifs at h with hcolumn
  · exact Or.inl ⟨hcolumn, addColumn_ok h⟩
  · exact Or.inr ⟨by simpa using hcolumn, changeCell_ok h⟩

omit [Floats K] in
/-- A cell of a column that is there stays as it is unless a change sets it. -/
theorem applyAll_other {last : ℕ} {w w' : Worksheet K} {changes : List (Json F)} {written notes : List PyStr}
    (h : applyAll px last w changes = .ok (w', written, notes)) {q : Position} (hq : q.1 ≤ w.maxColumn)
    (hset : ∀ change ∈ changes, hasKey change (py "column") = false → positionOf (cellRef change) ≠ q) :
    w'.value q = w.value q := by
  induction changes generalizing w written notes with
  | nil =>
    cases h
    rfl
  | cons change changes ih =>
    obtain ⟨⟨w₁, first, note⟩, hfirst, h⟩ := except_bind_ok h
    obtain ⟨⟨w₂, more, rest⟩, hrest, h⟩ := except_bind_ok h
    cases h
    have hlater := fun c hc ↦ hset c (List.mem_cons_of_mem change hc)
    rcases applyChange_cases hfirst with ⟨-, hadded⟩ | ⟨hcolumn, hchanged⟩
    · rw [ih hrest (by rw [hadded.maxColumn]; omega) hlater, hadded.other q hq]
    · have hne := hset change List.mem_cons_self hcolumn
      rw [ih hrest (by rw [hchanged.maxColumn]; omega) hlater, hchanged.other q (Ne.symm hne)]

omit [Floats K] in
theorem cellRef_mem_written {last : ℕ} {w w' : Worksheet K} {changes : List (Json F)} {written notes : List PyStr}
    (h : applyAll px last w changes = .ok (w', written, notes)) {change : Json F} (hmem : change ∈ changes)
    (hcolumn : hasKey change (py "column") = false) : cellRef change ∈ written := by
  induction changes generalizing w written notes with
  | nil => cases hmem
  | cons first changes ih =>
    obtain ⟨⟨w₁, early, note⟩, hfirst, h⟩ := except_bind_ok h
    obtain ⟨⟨w₂, more, rest⟩, hrest, h⟩ := except_bind_ok h
    cases h
    rcases List.mem_cons.mp hmem with rfl | hmem
    · rcases applyChange_cases hfirst with ⟨hyes, -⟩ | ⟨-, hchanged⟩
      · rw [hcolumn] at hyes
        cases hyes
      · simp [hchanged.written]
    · exact List.mem_append_right _ (ih hrest hmem)

omit [Floats K] in
/-- Every reference that is written is the key of its cell. -/
theorem gridKey_of_mem_written {last : ℕ} {w w' : Worksheet K} {changes : List (Json F)}
    {written notes : List PyStr} (hrefs : ∀ change ∈ changes, refuseChange change = none)
    (h : applyAll px last w changes = .ok (w', written, notes)) {ref : PyStr} (hmem : ref ∈ written) :
    gridKey ref = ref := by
  induction changes generalizing w written notes with
  | nil =>
    cases h
    cases hmem
  | cons change changes ih =>
    obtain ⟨⟨w₁, first, note⟩, hfirst, h⟩ := except_bind_ok h
    obtain ⟨⟨w₂, more, rest⟩, hrest, h⟩ := except_bind_ok h
    cases h
    rcases List.mem_append.mp hmem with hmem | hmem
    · rcases applyChange_cases hfirst with ⟨-, hadded⟩ | ⟨hcolumn, hchanged⟩
      · rw [hadded.written, List.mem_map] at hmem
        obtain ⟨row, -, rfl⟩ := hmem
        exact gridKey_refText _ _
      · rw [hchanged.written, List.mem_singleton] at hmem
        rw [hmem, ← refText_positionOf_cellRef (hrefs change List.mem_cons_self) hcolumn]
        exact gridKey_refText _ _
    · exact ih (fun c hc ↦ hrefs c (List.mem_cons_of_mem change hc)) hrest hmem

omit [Floats K] in
/-- Once the cells that are written are safe, all that the changes touch are safe exactly when the
names of the added columns are. -/
theorem touched_safe_iff (hkeeps : KeepsFormulas px) {Safe : PyStr → Prop} {last : ℕ} {w w' : Worksheet K}
    {changes : List (Json F)} {written notes : List PyStr}
    (hrefs : ∀ change ∈ changes, refuseChange change = none)
    (h : applyAll px last w changes = .ok (w', written, notes)) (hwritten : ∀ ref ∈ written, Safe ref)
    (hsafe : ∀ column, Safe (refText column 1) ↔ ∀ s, w'.value (column, 1) = .str s → ¬ UnsafeFormula s) :
    (∀ ref ∈ touched last w.maxColumn changes, Safe ref) ↔ HeadersSafe w.maxColumn changes := by
  induction changes generalizing w written notes with
  | nil => simp [touched, HeadersSafe]
  | cons change changes ih =>
    obtain ⟨⟨w₁, first, note⟩, hfirst, h⟩ := except_bind_ok h
    obtain ⟨⟨w₂, more, rest⟩, hrest, h⟩ := except_bind_ok h
    cases h
    have hlater := fun c hc ↦ hrefs c (List.mem_cons_of_mem change hc)
    have hih := ih hlater hrest (fun ref href ↦ hwritten ref (List.mem_append_right _ href))
    rcases applyChange_cases hfirst with ⟨hcolumn, hadded⟩ | ⟨hcolumn, hchanged⟩
    · rw [hadded.maxColumn] at hih
      have hdata : ∀ ref ∈ (dataRows last).map (refText (w.maxColumn + 1)), Safe ref := by
        rw [← hadded.written]
        exact fun ref href ↦ hwritten ref (List.mem_append_left _ href)
      have hheader : Safe (refText (w.maxColumn + 1) 1) ↔ (UnsafeFormula (headerOf change) →
          ∃ later ∈ changes, SetsCell later (refText (w.maxColumn + 1) 1)) := by
        by_cases htaken : ∃ later ∈ changes, SetsCell later (refText (w.maxColumn + 1) 1)
        · obtain ⟨later, hmem, hno, href⟩ := htaken
          refine iff_of_true (hwritten _ (List.mem_append_right _ ?_)) fun _ ↦ ⟨later, hmem, hno, href⟩
          rw [← href]
          exact cellRef_mem_written hrest hmem hno
        · -- Nothing takes the cell, so it holds the name in the end.
          have hvalue : w'.value (w.maxColumn + 1, 1) = w₁.value (w.maxColumn + 1, 1) := by
            refine applyAll_other hrest (by rw [hadded.maxColumn]) fun later hmem hno heq ↦ htaken ⟨later, hmem, hno, ?_⟩
            rw [← refText_positionOf_cellRef (hlater later hmem) hno, heq]
          rw [hsafe, hvalue]
          constructor
          · intro hall hrisky
            have hkept := hkeeps.kept _ _ _ hrisky.1 hadded.header
            exact absurd hrisky (hall _ hkept)
          · intro hnot s hs hrisky
            have honly := hkeeps.only _ _ s hrisky.1 (by rw [← hs]; exact hadded.header)
            rw [Json.str.injEq] at honly
            exact htaken (hnot (by rwa [honly]))
      rw [touched, if_pos hcolumn, HeadersSafe, if_pos hcolumn, ← hih, ← hheader]
      simp only [List.cons_append, List.forall_mem_cons, List.forall_mem_append]
      exact and_congr_right fun _ ↦ and_iff_right hdata
    · rw [hchanged.maxColumn] at hih
      have hown : Safe (cellRef change) := hwritten _ (List.mem_append_left _ (by simp [hchanged.written]))
      rw [touched, if_neg (by simp [hcolumn]), HeadersSafe, if_neg (by simp [hcolumn]), ← hih,
        List.forall_mem_cons]
      exact and_iff_right hown

/-! ## The copy -/

/-- How a copy comes about. -/
structure Copied (px : Openpyxl K F) (source : SheetSource) (changes : List (Json F)) (payload : Bytes)
    (w : Worksheet K) (sheet : Sheet K) : Prop where
  opened : ∃ notes, px.opened source = .ok (w, notes)
  accepted : ∀ change ∈ changes, refuseChange change = none
  loaded : px.load payload = .ok sheet
  applied : ∃ w' written notes, applyAll px w.lastRow w changes = .ok (w', written, notes) ∧
    px.save source w' = .ok payload ∧ ∀ ref ∈ written, SafeCell sheet.cells ref

theorem copied_of_applyCopy {source : SheetSource} {changes : List (Json F)} {copy : SheetCopy}
    (haccepted : ∀ change ∈ changes, refuseChange change = none)
    (h : applyCopy px source changes = .ok copy) : ∃ w sheet, Copied px source changes copy.payload w sheet := by
  obtain ⟨⟨w, opening⟩, hopened, h⟩ := except_bind_ok h
  obtain ⟨⟨w', written, notes⟩, happlied, h⟩ := except_bind_ok h
  obtain ⟨payload, hsave, h⟩ := except_bind_ok h
  obtain ⟨sheet, hload, h⟩ := except_bind_ok h
  rcases hrun : (previewTable (gridValue px.parse sheet.cells [] px.depth) written).run ⟨[], []⟩ with
    ⟨result, after⟩
  rw [hrun] at h
  cases result with
  | error e => cases h
  | ok lines =>
    obtain ⟨lines, blocked⟩ := lines
    simp only at h
    by_cases hblocked : blocked.isEmpty = true
    · rw [if_pos hblocked] at h
      obtain rfl := List.isEmpty_iff.mp hblocked
      obtain rfl : copy.payload = payload := by
        cases h
        rfl
      refine ⟨w, sheet, ⟨opening, hopened⟩, haccepted, orFail_ok hload, w', written, notes, happlied,
        orFail_ok hsave, fun ref href s hcell ↦ ?_⟩
      exact safe_of_previewTable hrun href (gridKey_of_mem_written haccepted happlied href) hcell
    · rw [if_neg hblocked] at h
      cases h

omit [Floats K] in
/-- A copy holds no unsafe formula in a cell that the changes write exactly when no added column is
named by one. -/
theorem copied_safe_iff (hkeeps : KeepsFormulas px) {source : SheetSource} {changes : List (Json F)}
    {payload : Bytes} {w : Worksheet K} {sheet : Sheet K} (h : Copied px source changes payload w sheet) :
    (∀ ref ∈ touched w.lastRow w.maxColumn changes, SafeCell sheet.cells ref) ↔
      HeadersSafe w.maxColumn changes := by
  obtain ⟨w', written, notes, happlied, hsave, hwritten⟩ := h.applied
  refine touched_safe_iff hkeeps h.accepted happlied hwritten fun column ↦ ?_
  have hstored := hkeeps.stored source w' payload sheet hsave h.loaded column 1
  constructor
  · exact fun hsafe s hs hrisky ↦ hsafe s ((hstored s hrisky.1).mpr hs) hrisky
  · exact fun hsafe s hs hrisky ↦ hsafe s ((hstored s hrisky.1).mp hs) hrisky

variable (host : SheetHost F)

variable (px) in
/-- The tool, with its checks and its changes to a worksheet. -/
def sheetTool : SheetHost F := { host with refusal := refusal, apply := applyCopy px }

omit [Floats K] in
theorem accepted_of_refusal {changes : List (Json F)} (h : refusal changes = none) :
    ∀ change ∈ changes, refuseChange change = none := by
  rw [refusal, List.findSome?_eq_none_iff] at h
  exact h

/-- What is written is a copy that the changes have been made to. -/
theorem copied_of_written {changes : List (Json F)} {file target : PyStr} {preview : Bool}
    {user : Option PyStr} {payload : Bytes}
    (h : FileEffect.wroteWorkbook target payload ∈ (writeSheet (sheetTool px host) changes file preview user).2) :
    ∃ source w sheet, host.source file = .ok source ∧ Copied px source changes payload w sheet := by
  rw [writeSheet] at h
  split at h
  · cases h
  · split at h
    · cases h
    · rename_i hrefusal
      split at h
      · cases h
      · rename_i source hsource
        split at h
        · cases h
        · split at h
          · cases h
          · cases h
          · rename_i copy hcopy
            split at h
            · cases h
            · obtain ⟨w, sheet, hcopied⟩ := copied_of_applyCopy (accepted_of_refusal hrefusal) hcopy
              refine ⟨source, w, sheet, hsource, ?_⟩
              rw [writeCopy] at h
              split at h
              · cases h
              · have hpayload : payload = copy.payload := by
                  rcases List.mem_cons.mp h with heq | hmem
                  · injection heq
                  · split at hmem
                    · split_ifs at hmem <;> simp at hmem
                    · cases hmem
                rwa [hpayload]

/-- A list of changes that is accepted leaves no unsafe formula in a cell that it writes exactly when
no column that it adds keeps an unsafe formula for its name. -/
theorem written_copy_safe_iff (hkeeps : KeepsFormulas px) {changes : List (Json F)} {file target : PyStr}
    {user : Option PyStr} {payload : Bytes}
    (h : FileEffect.wroteWorkbook target payload ∈ (writeSheet (sheetTool px host) changes file false user).2) :
    ∃ source w notes sheet, host.source file = .ok source ∧ px.opened source = .ok (w, notes) ∧
      px.load payload = .ok sheet ∧
        ((∀ ref ∈ touched w.lastRow w.maxColumn changes, SafeCell sheet.cells ref) ↔
          HeadersSafe w.maxColumn changes) := by
  obtain ⟨source, w, sheet, hsource, hcopied⟩ := copied_of_written host h
  obtain ⟨notes, hopened⟩ := hcopied.opened
  exact ⟨source, w, notes, sheet, hsource, hopened, hcopied.loaded, copied_safe_iff hkeeps hcopied⟩

end

/-! ## Two lists of changes -/

section

theorem refText_injective {c r d q : ℕ} (h : refText c r = refText d q) : c = d ∧ r = q := by
  have hcut (column row : ℕ) : (columnLetters column ++ natText row).takeWhile isCapital = columnLetters column ∧
      (columnLetters column ++ natText row).dropWhile isCapital = natText row :=
    takeWhile_isCapital_append (fun c hc ↦ isCapital_of_mem_columnLetters hc)
    fun c hc ↦ isCapital_of_isAsciiDigit (isAsciiDigit_of_mem_natText (List.mem_of_mem_head? hc))
  constructor
  · refine columnLetters_injective ?_
    rw [← (hcut c r).1, ← (hcut d q).1]
    exact congrArg _ h
  · have hrow : natText r = natText q := by
      rw [← (hcut c r).2, ← (hcut d q).2]
      exact congrArg _ h
    have hint := congrArg (@intOf asciiTables) hrow
    rwa [@intOf_natText asciiTables, @intOf_natText asciiTables] at hint

/-- The cells of a worksheet, as a copy that is read back has them. -/
def readBack (w : Worksheet ℚ) : List (PyStr × Value ℚ) := w.cells.map fun c ↦ (refText c.1.1 c.1.2, c.2)

theorem lookup_readBack (w : Worksheet ℚ) (column row : ℕ) :
    (readBack w).lookup (refText column row) = w.cells.lookup (column, row) := by
  rw [readBack]
  induction w.cells with
  | nil => rfl
  | cons c cells ih =>
    rw [List.map_cons, List.lookup_cons, List.lookup_cons, ih]
    by_cases heq : (column, row) = c.1
    · simp [← heq]
    · have hne : ¬ refText column row = refText c.1.1 c.1.2 := fun h ↦
        heq (Prod.ext (refText_injective h).1 (refText_injective h).2)
      rw [beq_eq_false_iff_ne.mpr hne, beq_eq_false_iff_ne.mpr heq]

def formulasOf (w : Worksheet ℚ) : List (Position × Option PyStr) := w.cells.map fun c ↦ (c.1, formulaOf c.2)

theorem value_eq_formula_iff {w w' : Worksheet ℚ} (h : formulasOf w = formulasOf w') {p : Position} {s : PyStr}
    (hs : startsWith (py "=") s = true) : w.value p = .str s ↔ w'.value p = .str s := by
  have hformula (w : Worksheet ℚ) : w.value p = .str s ↔ (formulasOf w).lookup p = some (some s) := by
    rw [Worksheet.value, formulasOf]
    induction w.cells with
    | nil => simp
    | cons c cells ih =>
      rw [List.map_cons, List.lookup_cons, List.lookup_cons]
      cases p == c.1 with
      | false => exact ih
      | true =>
        simp only [Option.getD_some, Option.some.injEq]
        cases hc : c.2 with
        | str t =>
          rw [formulaOf, Value.str.injEq]
          constructor
          · rintro rfl
            rw [if_pos hs]
          · intro h
            split_ifs at h
            injection h
        | _ => simp [formulaOf]
  rw [hformula w, hformula w', h]

/-- A workbook with one location in it, and a file format that knows a single copy of it. -/
def sampleOpenpyxl (copy : Worksheet ℚ) : Openpyxl ℚ FloatLit where
  opened _ := .ok (⟨[((1, 2), .str (py "N1")), ((1, 1), .str (py "Location"))]⟩, [])
  assign _ v := match v with
    | .str s => .ok (.str s)
    | .int i => .ok (.int i)
    | .bool b => .ok (.bool b)
    | _ => .error (py "Cannot convert to Excel")
  save _ w := if formulasOf w = formulasOf copy then .ok [] else .error []
  load _ := .ok ⟨py "Sheet1", readBack copy, [], 2, 2⟩
  repr _ := []
  parse _ := none
  depth := 1000

theorem sampleOpenpyxl_keeps (copy : Worksheet ℚ) : KeepsFormulas (sampleOpenpyxl copy) where
  kept p s x _ h := by
    cases h
    rfl
  only p v s _ h := by
    cases v with
    | str t =>
      cases h
      rfl
    | null | bool | int | float | arr | obj => cases h
  stored source w payload sheet hsave hload column row s hs := by
    have hformulas : formulasOf w = formulasOf copy := by
      by_contra hne
      have : (sampleOpenpyxl copy).save source w = .error [] := if_neg hne
      rw [this] at hsave
      cases hsave
    cases hload
    rw [value_eq_formula_iff hformulas hs, Worksheet.value]
    change (readBack copy).lookup (refText column row) = _ ↔ _
    rw [lookup_readBack]
    cases copy.cells.lookup (column, row) with
    | none => simp
    | some v => simp

def sampleChange (name : PyStr) : Json FloatLit := .obj [(py "column", .str name), (py "value", .int 1)]

def sampleCopy (name : PyStr) : Worksheet ℚ :=
  ⟨[((2, 2), .int 1), ((1, 1), .str (py "Location")), ((2, 1), .str name),
    ((1, 2), .str (py "N1")), ((1, 1), .str (py "Location"))]⟩

def sampleSheetHost : SheetHost FloatLit where
  refusal _ := none
  source name := .ok ⟨name, []⟩
  target _ := .ok (py "survey - 4CE.xlsx")
  apply _ _ := .error (.failed [])
  write _ := .ok ()
  kept _ := none
  link _ := []
  entry := none

def nothingBeyond : Beyond := ⟨fun _ ↦ none, fun _ _ ↦ .overflow, fun _ ↦ []⟩

section

local instance : Unicode := asciiTables
local instance : Casing := asciiCasing
local instance : Floats ℚ := exactFloats nothingBeyond
local instance : Runtime FloatLit := @Sop.textRuntime asciiTables

def sampleEffects (name : PyStr) : List FileEffect :=
  (writeSheet (sheetTool (sampleOpenpyxl (sampleCopy name)) sampleSheetHost) [sampleChange name]
    (py "survey.xlsx") false none).2

/-- A column with a plain name is written, and so its copy is judged by its name. -/
theorem written_copy_safe_count :
    ∃ source w notes sheet, sampleSheetHost.source (py "survey.xlsx") = .ok source ∧
      (sampleOpenpyxl (sampleCopy (py "Count"))).opened source = .ok (w, notes) ∧
        (sampleOpenpyxl (sampleCopy (py "Count"))).load [] = .ok sheet ∧
          ((∀ ref ∈ touched w.lastRow w.maxColumn [sampleChange (py "Count")], SafeCell sheet.cells ref) ↔
            HeadersSafe w.maxColumn [sampleChange (py "Count")]) := by
  have hwritten : FileEffect.wroteWorkbook (py "survey - 4CE.xlsx") [] ∈ sampleEffects (py "Count") := by
    have heffects : sampleEffects (py "Count") = [.wroteWorkbook (py "survey - 4CE.xlsx") []] := by
      decide
    rw [heffects]
    exact List.mem_singleton_self _
  exact written_copy_safe_iff sampleSheetHost (sampleOpenpyxl_keeps _) hwritten

def unsafeName : PyStr := py "=HYPERLINK(\"http://x\",\"Click\")"

/-- A column named by a link out of the workbook is written with its name. -/
theorem unsafe_name_written :
    FileEffect.wroteWorkbook (py "survey - 4CE.xlsx") [] ∈ sampleEffects unsafeName ∧
      ¬ ∀ ref ∈ touched 2 1 [sampleChange unsafeName], SafeCell (readBack (sampleCopy unsafeName)) ref := by
  constructor
  · have heffects : sampleEffects unsafeName = [.wroteWorkbook (py "survey - 4CE.xlsx") []] := by
      decide +kernel
    rw [heffects]
    exact List.mem_singleton_self _
  · intro hsafe
    have hrisky : UnsafeFormula unsafeName := ⟨by decide +kernel, by decide +kernel⟩
    have hcell : (readBack (sampleCopy unsafeName)).lookup (refText 2 1) = some (.str unsafeName) := by
      rw [lookup_readBack]
      rfl
    exact hsafe (refText 2 1) (by decide) unsafeName hcell hrisky

end

end

end FourCE.Tools

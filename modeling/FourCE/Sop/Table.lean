import FourCE.Orchestrator.Draft
import FourCE.Python.ReAscii
import FourCE.Sop.Disposition

/-!
# The table on its way to the orchestrator

The orchestrator reads the rule pack's verdicts back out of the report: the first markdown table,
line by line and pipe by pipe.  Every finding survives exactly when no cell breaks its line or its
row, and the name of the SOP brings no table of its own.
-/

namespace FourCE.Sop

open FourCE.Python FourCE.Orchestrator

/-! ## Lines of the report -/

theorem oneLine_headline (a : Assessed) : OneLine a.headline := by
  have hcount : ∀ {t u : PyStr} (n : ℕ), OneLine t → OneLine u → OneLine (t ++ natText n ++ u) :=
    fun n ht hu ↦ (ht.append (oneLine_natText n)).append hu
  have hpart : ∀ {b : Bool} {t : PyStr}, OneLine t → ∀ x ∈ (if b = true then [] else [t]), OneLine x := by
    intro b t ht x hx
    cases b with
    | true => exact absurd hx List.not_mem_nil
    | false =>
      rw [List.mem_singleton.mp hx]
      exact ht
  rw [Assessed.headline]
  refine oneLine_join (by decide) fun x hx ↦ ?_
  rcases List.mem_append.mp hx with hx | hx
  · rcases List.mem_append.mp hx with hx | hx
    · rcases List.mem_append.mp hx with hx | hx
      · rw [List.mem_singleton.mp hx]
        exact hcount _ ((OneLine.append (by decide) (oneLine_intText _)).append
          (by decide)) (by decide)
      · exact hpart ((oneLine_natText _).append (by decide)) x hx
    · exact hpart ((oneLine_natText _).append (by decide)) x hx
  · exact hpart ((oneLine_natText _).append (by decide)) x hx

theorem isRow_of_head {s : PyStr} {c : CodePoint} (h : s.head? = some c) (hwhite : isWhite c = false) :
    isRow s = (c = 124) := by
  cases s with
  | nil => cases h
  | cons d s =>
    cases h
    have hpipe : py "|" = [124] := rfl
    rw [isRow, lstrip, List.dropWhile_cons_of_neg (by simp [hwhite]), startsWith, hpipe]
    simp only [List.isPrefixOf, Bool.and_true, beq_iff_eq]
    exact propext eq_comm

theorem isRow_headline (a : Assessed) : isRow a.headline = false := by
  have hhead : a.headline.head? = some 42 := by
    rw [Assessed.headline, List.append_assoc, List.append_assoc, List.singleton_append,
      head?_join _ (by simp [py])]
    rfl
  have hrow := isRow_of_head hhead (by decide)
  exact Bool.eq_false_iff.mpr fun h ↦ absurd (hrow.mp h) (by decide)

theorem isRow_pipeRow (cells : List PyStr) : isRow (pipeRow cells) = true :=
  (isRow_of_head (head?_pipeRow cells) (by decide)).mpr rfl

/-! ## What a row must be -/

/-- The cells of a finding as they are found again: the clause and the verdict as they are, the
others without the white space around them. -/
def Finding.foundCells (f : Finding) : List PyStr :=
  [strip f.parameter, strip f.measured, strip f.limit, f.clauseCell, f.verdict]

/-- A finding none of whose cells breaks its line or its row. -/
structure Finding.Tabular (f : Finding) : Prop where
  plain : ∀ c ∈ f.cells, 124 ∉ c ∧ OneLine c
  clause : Stripped f.clauseCell
  verdict : Stripped f.verdict

theorem Finding.Tabular.cells {f : Finding} (h : f.Tabular) :
    pipeCells (pipeRow f.cells) = f.foundCells := by
  have hne : f.cells ≠ [] := List.cons_ne_nil _ _
  rw [pipeCells_pipeRow hne fun c hc ↦ (h.plain c hc).1, Finding.cells,
    Finding.foundCells, List.map_cons, List.map_cons, List.map_cons, List.map_cons, List.map_cons,
    List.map_nil, h.clause.strip_eq, h.verdict.strip_eq]

/-- Where a line gives back the cells of a finding, no cell of the finding holds a pipe. -/
theorem not_mem_cells {f : Finding} {u : PyStr} (h : pipeCells u = f.foundCells) :
    ∀ c ∈ f.cells, 124 ∉ c := by
  have hfound : ∀ c ∈ f.foundCells, 124 ∉ c := fun c hc ↦ not_mem_of_mem_pipeCells (h ▸ hc)
  have hstrip : ∀ {c : PyStr}, 124 ∉ strip c → 124 ∉ c := fun hc hmem ↦ hc (mem_strip (by decide) hmem)
  simp only [Finding.foundCells, List.mem_cons, List.not_mem_nil, or_false, forall_eq_or_imp,
    forall_eq] at hfound
  simp only [Finding.cells, List.mem_cons, List.not_mem_nil, or_false, forall_eq_or_imp, forall_eq]
  exact ⟨hstrip hfound.1, hstrip hfound.2.1, hstrip hfound.2.2.1, hfound.2.2.2.1, hfound.2.2.2.2⟩

/-- A broken row does not give back its cells: its first line ends before the clause. -/
theorem oneLine_of_foundCells {f : Finding} (text : PyStr)
    (h : pipeCells ((pipeRow f.cells ++ text).takeWhile fun c ↦ !isLineEnd c) = f.foundCells) :
    OneLine (pipeRow f.cells) := by
  have hpipe := not_mem_cells h
  generalize hu : (pipeRow f.cells ++ text).takeWhile (fun c ↦ !isLineEnd c) = u at h
  have huline : OneLine u := hu ▸ oneLine_takeWhile _
  have hmem : ∀ c ∈ f.foundCells, OneLine c :=
    fun c hc ↦ huline.subset (sublist_of_mem_pipeCells (h ▸ hc)).subset
  have hclause : OneLine f.clauseCell := hmem _ (by simp [Finding.foundCells])
  have hverdict : OneLine f.verdict := hmem _ (by simp [Finding.foundCells])
  let front := py "| " ++ f.parameter ++ py " | " ++ f.measured ++ py " | " ++ f.limit
  let back := py " | " ++ f.clauseCell ++ py " | " ++ f.verdict ++ py " |"
  have hrow : pipeRow f.cells = front ++ back := by
    simp [pipeRow, Finding.cells, join, front, back]
  have hback : OneLine back :=
    (((OneLine.append (by decide) hclause).append (by decide)).append hverdict).append
      (by decide)
  by_cases hfront : OneLine front
  · rw [hrow]
    exact hfront.append hback
  · exfalso
    -- The line is cut in front of the clause, where the row has three pipes.
    have hbegin : u <+: front := by
      have hcut : ¬ ∀ c ∈ front, (!isLineEnd c) = true := by
        simpa [OneLine] using hfront
      rw [← hu, hrow, List.append_assoc, List.takeWhile_append, if_neg]
      · exact List.takeWhile_prefix _
      · intro hlength
        refine hcut (List.takeWhile_eq_self_iff.mp ?_)
        exact (List.takeWhile_prefix _).eq_of_length hlength
    have hparameter := hpipe f.parameter (by simp [Finding.cells])
    have hmeasured := hpipe f.measured (by simp [Finding.cells])
    have hlimit := hpipe f.limit (by simp [Finding.cells])
    have hopen : (py "| ").count 124 = 1 := by decide
    have hsep : (py " | ").count 124 = 1 := by decide
    have hcount : front.count 124 = 3 := by
      simp only [front, List.count_append, hopen, hsep, List.count_eq_zero_of_not_mem hparameter,
        List.count_eq_zero_of_not_mem hmeasured, List.count_eq_zero_of_not_mem hlimit]
    have hhead : u.head? = some 124 := by
      rw [← hu]
      rfl
    have hle := (length_pipeCells_le hhead).trans ((hbegin.sublist.count_le 124).trans_eq hcount)
    rw [h] at hle
    exact absurd hle (by simp [Finding.foundCells])

theorem tabular_of_foundCells {f : Finding} (text : PyStr)
    (h : pipeCells ((pipeRow f.cells ++ text).takeWhile fun c ↦ !isLineEnd c) = f.foundCells) :
    f.Tabular := by
  have hline := (oneLine_pipeRow_iff _).mp (oneLine_of_foundCells text h)
  have hstripped : ∀ c ∈ f.foundCells, Stripped c := fun c hc ↦ stripped_of_mem_pipeCells (h ▸ hc)
  exact ⟨fun c hc ↦ ⟨not_mem_cells h c hc, hline c hc⟩, hstripped _ (by simp [Finding.foundCells]),
    hstripped _ (by simp [Finding.foundCells])⟩

/-- The rows of the findings are found again exactly when no cell breaks its row. -/
theorem rows_found_iff (fs : List Finding) {rest : PyStr}
    (hrest : (splitLines rest).takeWhile isRow = []) :
    ((splitLines (fs.flatMap (fun f ↦ pipeRow f.cells ++ [10]) ++ rest)).takeWhile isRow).map pipeCells =
        fs.map Finding.foundCells ↔
      ∀ f ∈ fs, f.Tabular := by
  induction fs with
  | nil => simp [hrest]
  | cons f fs ih =>
    rw [List.flatMap_cons, List.append_assoc, List.append_assoc, List.singleton_append, List.map_cons,
      List.forall_mem_cons]
    constructor
    · intro h
      obtain ⟨more, hmore⟩ := splitLines_head (s := pipeRow f.cells ++
        10 :: (fs.flatMap (fun f ↦ pipeRow f.cells ++ [10]) ++ rest)) (by simp [pipeRow, py])
      have htabular : f.Tabular := by
        rw [hmore, List.takeWhile_cons_of_pos, List.map_cons] at h
        · exact tabular_of_foundCells _ (List.cons.inj h).1
        · exact (isRow_of_head (c := 124) rfl (by decide)).mpr rfl
      refine ⟨htabular, ih.mp ?_⟩
      have hline := (oneLine_pipeRow_iff _).mpr fun c hc ↦ (htabular.plain c hc).2
      rw [splitLines_line hline, List.takeWhile_cons_of_pos (isRow_pipeRow _), List.map_cons] at h
      exact (List.cons.inj h).2
    · rintro ⟨htabular, hothers⟩
      have hline := (oneLine_pipeRow_iff _).mpr fun c hc ↦ (htabular.plain c hc).2
      rw [splitLines_line hline, List.takeWhile_cons_of_pos (isRow_pipeRow _), List.map_cons,
        htabular.cells, ih.mpr hothers]

/-! ## The first table of the report -/

section Table

variable [Unicode]

omit [Unicode] in
theorem isRow_nil : isRow [] = false := by decide

/-- An empty line makes no table of the line before it. -/
theorem tableRule_nil : (reMatch tableRule []).isSome = false := by
  have hnone : Library.Regex.matchAt sre tableRule false [] [] = none := by
    rw [Library.Regex.matchAt_none_iff, List.filter_eq_nil_iff]
    intro t ht
    have hlt := Library.Regex.run_consumes tableRule (by decide +kernel) _ t ht
    exact absurd hlt (Nat.not_lt_zero _)
  rw [reMatch, hnone]
  rfl

omit [Unicode] in
theorem tableRule_head (u : Unicode) :
    (@reMatch u tableRule (py "|---|---|---|---|---|")).isSome = true := by
  rw [reMatch_ascii u tableRule (by decide)]
  decide +kernel

theorem firstTableLines_nil_cons (rest : List PyStr) :
    firstTableLines ([] :: rest) = firstTableLines rest := by
  cases rest with
  | nil => rfl
  | cons x xs => rw [firstTableLines, isRow_nil]; rfl

/-- The first table of lines with an empty line among them. -/
theorem firstTableLines_append (xs rest : List PyStr) :
    firstTableLines (xs ++ [] :: rest) =
      if firstTableLines xs = [] then firstTableLines rest else firstTableLines xs := by
  induction xs with
  | nil => exact firstTableLines_nil_cons rest
  | cons x xs ih =>
    cases xs with
    | nil =>
      rw [List.singleton_append, firstTableLines.eq_3, tableRule_nil, Bool.and_false]
      exact firstTableLines_nil_cons rest
    | cons y ys =>
      rw [List.cons_append, List.cons_append, firstTableLines, firstTableLines]
      split
      case isTrue h =>
        have hrow := (Bool.and_eq_true _ _ ▸ h).1
        have hcut : (x :: y :: (ys ++ [] :: rest)).takeWhile isRow = (x :: y :: ys).takeWhile isRow := by
          rw [← List.cons_append, ← List.cons_append, List.takeWhile_append]
          split
          case isTrue hall =>
            rw [List.takeWhile_cons_of_neg (by simp [isRow_nil]), List.append_nil]
            exact ((List.takeWhile_prefix _).eq_of_length hall).symm
          case isFalse => rfl
        rw [hcut, if_neg]
        rw [List.takeWhile_cons_of_pos hrow]
        exact List.cons_ne_nil _ _
      case isFalse => exact ih

theorem isRow_of_mem_firstTableLines {xs : List PyStr} {x : PyStr} (h : x ∈ firstTableLines xs) :
    isRow x = true ∧ x ∈ xs := by
  induction xs using firstTableLines.induct with
  | case1 => exact absurd h List.not_mem_nil
  | case2 y => exact absurd h List.not_mem_nil
  | case3 y z rest htable =>
    rw [firstTableLines, if_pos htable] at h
    exact ⟨List.all_eq_true.mp List.all_takeWhile x h, (List.takeWhile_subset _) h⟩
  | case4 y z rest htable ih =>
    rw [firstTableLines, if_neg htable] at h
    exact ⟨(ih h).1, List.mem_cons_of_mem y (ih h).2⟩

/-- The lines of the first table are the lines it was found in. -/
theorem splitLines_firstTable (text : PyStr) :
    splitLines (firstTable text) = firstTableLines (splitLines text) := by
  refine splitLines_join (fun x hx ↦ ?_) fun x hx ↦ ?_
  · exact oneLine_of_mem_splitLines (isRow_of_mem_firstTableLines hx).2
  · rintro rfl
    have hrow := (isRow_of_mem_firstTableLines (List.mem_of_mem_getLast? hx)).1
    rw [isRow_nil] at hrow
    cases hrow

/-- The data rows of the first table of a text, each as its cells: `_verdict_checks` reads them so. -/
def tableRows (markdown : PyStr) : List (List PyStr) :=
  ((splitLines (firstTable markdown)).drop 2).map pipeCells

/-- The lines of the table and under it. -/
def Assessed.body (a : Assessed) : PyStr :=
  join [10] (a.findings.map (fun f ↦ pipeRow f.cells) ++ a.tail)

omit [Unicode] in
theorem tail_eq (a : Assessed) : ∃ rest, a.tail = [] :: rest ∧ rest ≠ [] := by
  rw [Assessed.tail, Assessed.required, Assessed.notMeasured, Assessed.outside]
  split
  · split
    · split
      · exact ⟨_, rfl, by simp⟩
      · exact ⟨_, rfl, by simp⟩
    · exact ⟨_, rfl, by simp⟩
  · exact ⟨_, rfl, by simp⟩

omit [Unicode] in
theorem splitLines_report (a : Assessed) :
    splitLines a.report = splitLines a.heading ++ [] :: a.headline :: [] :: (tableHead ++
      splitLines a.body) := by
  obtain ⟨rest, htail, -⟩ := tail_eq a
  have hlast : ∀ c ∈ a.heading.getLast?, isLineEnd c = false := by
    intro c hc
    rw [Assessed.heading, List.getLast?_append_of_ne_nil _ (by rw [Assessed.status]; split <;> simp [py])]
      at hc
    rw [Assessed.status] at hc
    split at hc
    · cases hc
      decide
    · cases hc
      decide
  have hreport : a.report = a.heading ++ 10 :: ([] ++ 10 :: (a.headline ++ 10 :: ([] ++ 10 ::
      (py "| Parameter | Measured | Acceptance limit | Clause | Verdict |" ++ 10 ::
        (py "|---|---|---|---|---|" ++ 10 :: a.body))))) := by
    rw [Assessed.report, Assessed.body, htail, List.append_assoc, join_append _ (by simp)]
    simp [tableHead]
  have hempty : OneLine [] := fun c hc ↦ absurd hc List.not_mem_nil
  rw [hreport, splitLines_newline _ (by simp [Assessed.heading, py]) hlast, splitLines_line hempty,
    splitLines_line (oneLine_headline a), splitLines_line hempty, splitLines_line (by decide),
    splitLines_line (by decide)]
  rfl

/-- The rows the orchestrator finds: those of a table in the heading if there is one, otherwise those
of the findings. -/
theorem tableRows_report (a : Assessed) :
    tableRows a.report = if firstTable a.heading = [] then
      ((splitLines a.body).takeWhile isRow).map pipeCells else tableRows a.heading := by
  have hhead : firstTableLines (a.headline :: [] :: (tableHead ++ splitLines a.body)) =
      tableHead ++ (splitLines a.body).takeWhile isRow := by
    have hcolumns : isRow (py "| Parameter | Measured | Acceptance limit | Clause | Verdict |") = true := by
      decide
    have hrule : isRow (py "|---|---|---|---|---|") = true := by decide
    rw [firstTableLines, isRow_headline, Bool.false_and, if_neg (by simp), firstTableLines_nil_cons,
      tableHead, List.cons_append, List.cons_append, List.nil_append, firstTableLines, hcolumns,
      tableRule_head, Bool.and_self, if_pos rfl, List.takeWhile_cons_of_pos hcolumns,
      List.takeWhile_cons_of_pos hrule]
    rfl
  have hnone : firstTable a.heading = [] ↔ firstTableLines (splitLines a.heading) = [] := by
    rw [← splitLines_firstTable]
    constructor
    · intro h
      rw [h]
      rfl
    · intro h
      by_contra hne
      obtain ⟨more, hmore⟩ := splitLines_head hne
      rw [h] at hmore
      cases hmore
  rw [tableRows, splitLines_firstTable, splitLines_report, firstTableLines_append, hhead]
  by_cases h : firstTable a.heading = []
  · rw [if_pos h, if_pos (hnone.mp h)]
    rfl
  · rw [if_neg h, if_neg (mt hnone.mpr h), tableRows, splitLines_firstTable]

/-- What it takes for the table to be found again. -/
def Assessed.Tabular (a : Assessed) : Prop :=
  if firstTable a.heading = [] then ∀ f ∈ a.findings, f.Tabular
  else tableRows a.heading = a.findings.map Finding.foundCells

theorem tableRows_report_iff (a : Assessed) :
    tableRows a.report = a.findings.map Finding.foundCells ↔ a.Tabular := by
  obtain ⟨rest, htail, hrest⟩ := tail_eq a
  rw [tableRows_report, Assessed.Tabular]
  split
  · have hbody : a.body = a.findings.flatMap (fun f ↦ pipeRow f.cells ++ [10]) ++ join [10] a.tail := by
      rw [Assessed.body, join_append _ (by rw [htail]; simp), List.flatMap_map]
    rw [hbody, rows_found_iff]
    obtain ⟨x, xs, rfl⟩ := List.exists_cons_of_ne_nil hrest
    have hlines := splitLines_line (s := []) (fun c hc ↦ absurd hc List.not_mem_nil)
      (join [10] (x :: xs))
    have hjoin : join [10] a.tail = [] ++ 10 :: join [10] (x :: xs) := by
      rw [htail, join]
      rfl
    rw [hjoin, hlines, List.takeWhile_cons_of_neg (by simp [isRow_nil])]
  · exact Iff.rfl

variable [Casing] {F : Type} [Runtime F]

omit [Unicode] [Casing] [Runtime F] in
theorem map_some_of_mapM {α β : Type} {g : α → Option β} {xs : List α} {ys : List β}
    (h : xs.mapM g = some ys) : ys.map some = xs.map g := by
  induction xs generalizing ys with
  | nil =>
    cases h
    rfl
  | cons x xs ih =>
    rw [List.mapM_cons] at h
    obtain ⟨z, hz, h⟩ := Option.bind_eq_some_iff.mp h
    obtain ⟨zs, hzs, h⟩ := Option.bind_eq_some_iff.mp h
    cases h
    rw [List.map_cons, List.map_cons, ih hzs, hz]

/-- One finding for each rule, in order. -/
theorem findings_eq {blocking : Bool} {pack : List (PyStr × Json F)} {text : PyStr} {a : Assessed}
    (h : assessPack blocking pack text = some a) :
    a.findings.map some = (rulesOf pack).map fun rule ↦ (assessOf rule text).map Prod.fst := by
  obtain ⟨found, hfound, h⟩ := Option.bind_eq_some_iff.mp h
  cases h
  have hsome := map_some_of_mapM hfound
  calc (found.map Prod.fst).map some = (found.map some).map (Option.map Prod.fst) := by simp
    _ = _ := by rw [hsome, List.map_map]; rfl

/-- The first table of a report has one data row for each rule, in order, which splits into the
cells of its finding, exactly when no finding breaks its row. -/
theorem table_found_iff (decodeError : PyStr → PyStr) {valves : SopValves}
    {pack : List (PyStr × Json F)} (hpack : rulePack decodeError valves = .ok pack)
    {readings report : PyStr} (hread : strip readings ≠ [])
    (h : checkSopThresholds F decodeError valves readings = some report) :
    ∃ a, assessPack valves.blockOnMissingData pack (strip readings) = some a ∧ report = a.report ∧
      (a.findings.map some =
        (rulesOf pack).map fun rule ↦ (assessOf rule (strip readings)).map Prod.fst) ∧
      (tableRows report = a.findings.map Finding.foundCells ↔ a.Tabular) := by
  rw [checkSopThresholds_eq hpack hread] at h
  obtain ⟨a, ha, rfl⟩ := Option.map_eq_some_iff.mp h
  exact ⟨a, ha, rfl, findings_eq ha, tableRows_report_iff a⟩

end Table

/-! ## A reading over two lines -/

section Sample

def builtinValves : SopValves where
  rulePack := []
  blockOnMissingData := true

/-- What the built-in pack makes of a text. -/
def builtinAssessed (text : PyStr) : Option Assessed :=
  @assessPack asciiTables asciiCasing FloatLit (@textRuntime asciiTables) true defaultRulePack text

theorem builtinAssessed_report {text : PyStr} {a : Assessed} (hne : strip text ≠ [])
    (h : builtinAssessed (strip text) = some a) :
    @checkSopThresholds asciiTables asciiCasing FloatLit (@textRuntime asciiTables) id builtinValves text =
      some a.report := by
  have hpack : @rulePack FloatLit (@textRuntime asciiTables) id builtinValves = .ok defaultRulePack := rfl
  rw [@checkSopThresholds_eq asciiTables asciiCasing FloatLit (@textRuntime asciiTables) id builtinValves
    defaultRulePack hpack text hne]
  exact congrArg (Option.map Assessed.report) h

/-- Zone D, with the word and the letter on two lines. -/
def zoneText : PyStr := py "Vibration is in zone\nD."

theorem zoneText_rows : (builtinAssessed zoneText).map (fun a ↦
    (a.findings.map Finding.verdict, (@tableRows asciiTables a.report).map List.getLast?)) =
      some ([py "NO DATA", py "PASS", py "FAIL", py "NO DATA", py "PASS"],
        [some (py "NO DATA"), some (py "PASS"), some (py "zone")]) := by
  decide +kernel

/-- The row of a finding that failed is cut, and the rows below it are lost. -/
theorem failure_lost_over_two_lines : ∃ a, builtinAssessed zoneText = some a ∧
    (∃ f ∈ a.findings, f.verdict = py "FAIL") ∧
    (∀ row ∈ @tableRows asciiTables a.report, row.getLast? ≠ some (py "FAIL")) ∧
    @tableRows asciiTables a.report ≠ a.findings.map Finding.foundCells := by
  obtain ⟨a, ha, hfields⟩ := Option.map_eq_some_iff.mp zoneText_rows
  obtain ⟨hverdicts, hrows⟩ := Prod.mk.inj hfields
  have hfail : py "FAIL" ∈ a.findings.map Finding.verdict := by
    rw [hverdicts]
    decide
  obtain ⟨f, hf, hverdict⟩ := List.mem_map.mp hfail
  refine ⟨a, ha, ⟨f, hf, hverdict⟩, fun row hrow hlast ↦ ?_, fun heq ↦ ?_⟩
  · have hmem : row.getLast? ∈ (@tableRows asciiTables a.report).map List.getLast? :=
      List.mem_map_of_mem hrow
    rw [hrows, hlast] at hmem
    exact absurd hmem (by decide)
  · have hlength := congrArg List.length hrows
    have hcount := congrArg List.length hverdicts
    rw [List.length_map, heq, List.length_map] at hlength
    rw [List.length_map] at hcount
    rw [hcount] at hlength
    exact absurd hlength (by decide)

/-- On one line, the same reading is found again. -/
theorem table_found_iff_one_line : ∃ a, builtinAssessed (py "Vibration is in zone D.") = some a ∧
    (@tableRows asciiTables a.report = a.findings.map Finding.foundCells ↔
      @Assessed.Tabular asciiTables a) := by
  have hsome : (builtinAssessed (py "Vibration is in zone D.")).isSome = true := by decide
  have hstrip : strip (py "Vibration is in zone D.") = py "Vibration is in zone D." := by decide
  obtain ⟨a, ha⟩ := Option.isSome_iff_exists.mp hsome
  have hne : strip (py "Vibration is in zone D.") ≠ [] := by decide
  have hreport := builtinAssessed_report hne (hstrip.symm ▸ ha)
  obtain ⟨b, hb, -, -, hiff⟩ := @table_found_iff asciiTables asciiCasing FloatLit
    (@textRuntime asciiTables) id builtinValves defaultRulePack rfl (py "Vibration is in zone D.")
    a.report hne hreport
  rw [hstrip] at hb
  have hab : b = a := Option.some.inj (hb.symm.trans ha)
  rw [hab] at hiff
  exact ⟨a, ha, hiff⟩

end Sample

end FourCE.Sop

import FourCE.Calibration.Rows
import Mathlib.Data.List.Perm.Subperm

/-!
# Results in doubt

What a report lists under "Results in doubt": of the rows that failed one for each tag, the first.  So
each failed row has its own line exactly when no two of them have the same tag.
-/

namespace FourCE.Calibration

open FourCE.Python

/-- Out of tolerance or overdue. -/
def Assessment.failed (row : Assessment) : Bool := row.tolerance = .outOfTolerance || row.status = .overdue

def Assessment.doubtLine (row : Assessment) : PyStr := py "- **" ++ row.tag ++ py "** - " ++ row.doubt

/-- The lines under "Results in doubt". -/
def resultsInDoubt (rows : List Assessment) : List PyStr :=
  doubtLines [] ((groupsOf rows).outOfTolerance ++ (groupsOf rows).overdue)

def doubtSection (rows : List Assessment) : List PyStr :=
  if (groupsOf rows).outOfTolerance.isEmpty && (groupsOf rows).overdue.isEmpty then []
  else [[], py "### Results in doubt", []] ++ resultsInDoubt rows

theorem doubtSection_infix (report : RegisterParse) (rows : List Assessment) (at_ : Date) (valves : Valves) :
    doubtSection rows <:+: reportLines report rows at_ valves := by
  unfold reportLines
  -- What stands behind the section, part by part.
  iterate 6 refine List.IsInfix.trans ?_ (List.prefix_append _ _).isInfix
  exact (List.suffix_append _ _).isInfix

/-! ## One line for each tag -/

/-- The rows that get a line. -/
def doubted : List PyStr → List Assessment → List Assessment
  | _, [] => []
  | seen, row :: rows =>
    if row.tag ∈ seen ∨ row.doubt.isEmpty then doubted seen rows
    else row :: doubted (row.tag :: seen) rows

theorem doubtLines_eq (seen : List PyStr) (rows : List Assessment) :
    doubtLines seen rows = (doubted seen rows).map Assessment.doubtLine := by
  induction rows generalizing seen with
  | nil => rfl
  | cons row rows ih =>
    rw [doubtLines, doubted]
    split_ifs
    · exact ih seen
    · rw [List.map_cons, ih]
      rfl

theorem doubted_subset (seen : List PyStr) (rows : List Assessment) : doubted seen rows ⊆ rows := by
  induction rows generalizing seen with
  | nil => exact List.Subset.refl _
  | cons row rows ih =>
    rw [doubted]
    split_ifs
    · exact List.Subset.trans (ih seen) (List.subset_cons_self _ _)
    · exact List.cons_subset_cons _ (ih _)

theorem doubted_tags (seen : List PyStr) (rows : List Assessment) :
    ((doubted seen rows).map Assessment.tag).Nodup ∧ ∀ row ∈ doubted seen rows, row.tag ∉ seen := by
  induction rows generalizing seen with
  | nil => exact ⟨List.nodup_nil, nofun⟩
  | cons row rows ih =>
    rw [doubted]
    split_ifs with hskip
    · exact ih seen
    · rw [not_or] at hskip
      obtain ⟨hnodup, hnew⟩ := ih (row.tag :: seen)
      constructor
      · rw [List.map_cons, List.nodup_cons]
        refine ⟨fun hmem ↦ ?_, hnodup⟩
        obtain ⟨other, hother, htag⟩ := List.mem_map.mp hmem
        exact hnew other hother (htag ▸ List.mem_cons_self)
      · intro other hother
        rcases List.mem_cons.mp hother with rfl | hother
        · exact hskip.1
        · exact fun hseen ↦ hnew other hother (List.mem_cons_of_mem _ hseen)

/-- A row with a doubt gets a line, or another row with its tag does. -/
theorem exists_doubted {seen : List PyStr} {rows : List Assessment} {row : Assessment} (hrow : row ∈ rows)
    (hdoubt : row.doubt ≠ []) (hseen : row.tag ∉ seen) : ∃ kept ∈ doubted seen rows, kept.tag = row.tag := by
  induction rows generalizing seen with
  | nil => cases hrow
  | cons first rows ih =>
    rw [doubted]
    split_ifs with hskip
    · rcases List.mem_cons.mp hrow with rfl | hrow
      · rcases hskip with htag | hempty
        · exact absurd htag hseen
        · exact absurd (List.isEmpty_iff.mp hempty) hdoubt
      · exact ih hrow hseen
    · by_cases htag : first.tag = row.tag
      · exact ⟨first, List.mem_cons_self, htag⟩
      · rcases List.mem_cons.mp hrow with rfl | hrow
        · exact absurd rfl htag
        · have hfresh : row.tag ∉ first.tag :: seen := fun hmem ↦
            (List.mem_cons.mp hmem).elim (fun h ↦ htag h.symm) hseen
          obtain ⟨kept, hkept, heq⟩ := ih hrow hfresh
          exact ⟨kept, List.mem_cons_of_mem _ hkept, heq⟩

theorem mem_failed_groups {rows : List Assessment} {row : Assessment} :
    row ∈ (groupsOf rows).outOfTolerance ++ (groupsOf rows).overdue ↔ row ∈ rows.filter Assessment.failed := by
  simp only [groupsOf, Assessment.failed, List.mem_append, List.mem_filter, Bool.or_eq_true]
  tauto

/-- Of rows whose doubts are stated, each failed one has its own line exactly when their tags differ. -/
theorem resultsInDoubt_perm_iff {rows : List Assessment}
    (hdoubt : ∀ row ∈ rows, row.failed = true → row.doubt ≠ []) :
    (resultsInDoubt rows).Perm ((rows.filter Assessment.failed).map Assessment.doubtLine) ↔
      ((rows.filter Assessment.failed).map Assessment.tag).Nodup := by
  unfold resultsInDoubt
  generalize hlist : (groupsOf rows).outOfTolerance ++ (groupsOf rows).overdue = listed
  have hmem (row : Assessment) : row ∈ listed ↔ row ∈ rows.filter Assessment.failed := by
    rw [← hlist]
    exact mem_failed_groups
  obtain ⟨htags, -⟩ := doubted_tags [] listed
  have hsub : doubted [] listed ⊆ rows.filter Assessment.failed := fun row hrow ↦
    (hmem row).mp (doubted_subset [] listed hrow)
  have hkept {row : Assessment} (hrow : row ∈ rows.filter Assessment.failed) :
      ∃ kept ∈ doubted [] listed, kept.tag = row.tag := by
    obtain ⟨hin, hfailed⟩ := List.mem_filter.mp hrow
    exact exists_doubted ((hmem row).mpr hrow) (hdoubt row hin hfailed) List.not_mem_nil
  rw [doubtLines_eq]
  constructor
  · intro hperm
    have hlength := hperm.length_eq
    rw [List.length_map, List.length_map] at hlength
    have hsubperm := List.subperm_of_subset htags (List.map_subset Assessment.tag hsub)
    have hsame := hsubperm.perm_of_length_le (by rw [List.length_map, List.length_map, hlength])
    exact hsame.nodup htags
  · intro hnodup
    apply List.Perm.map
    rw [List.perm_ext_iff_of_nodup htags.of_map hnodup.of_map]
    refine fun row ↦ ⟨fun h ↦ hsub h, fun hrow ↦ ?_⟩
    obtain ⟨kept, hin, htag⟩ := hkept hrow
    rwa [← List.inj_on_of_nodup_map hnodup (hsub hin) hrow htag]

/-! ## The doubt of a failed row -/

theorem afterAdjustment_doubt (i : Instrument) (limit : Quantity) (c : Compared) :
    (afterAdjustment i limit c).doubt = c.doubt ∧ (afterAdjustment i limit c).verdict = c.verdict := by
  unfold afterAdjustment
  cases i.asLeft with
  | none => exact ⟨rfl, rfl⟩
  | some left =>
    simp only
    split_ifs <;> exact ⟨rfl, rfl⟩

theorem compare_doubt {i : Instrument} {placed : Placed} {notes : List PyStr}
    (h : (compare i placed notes).verdict = .outOfTolerance) : (compare i placed notes).doubt ≠ [] := by
  unfold compare at h ⊢
  simp only at h ⊢
  by_cases hunreadable : (!(unreadableTexts i).isEmpty) = true
  · rw [if_pos hunreadable] at h
    cases h
  rw [if_neg hunreadable] at h ⊢
  cases hfound : i.asFound with
  | none =>
    rw [hfound] at h
    cases h
  | some found =>
    cases hlimit : i.tolerance with
    | none =>
      rw [hfound, hlimit] at h
      cases h
    | some limit =>
      simp only [hfound, hlimit] at h ⊢
      split_ifs at h ⊢ with hunit hbeyond
      · rw [(afterAdjustment_doubt i limit _).1]
        simp [py]
      · rw [(afterAdjustment_doubt i limit _).2] at h
        cases h

theorem assess_doubt {i : Instrument} {at_ : Date} {valves : Valves} {row : Assessment}
    (h : assess i at_ valves = some row) (hfailed : row.failed = true) : row.doubt ≠ [] := by
  simp only [assess, Option.bind_eq_bind, Option.bind_eq_some_iff, Option.pure_def, Option.some.injEq] at h
  obtain ⟨computed, -, rfl⟩ := h
  simp only [Assessment.failed, Bool.or_eq_true, decide_eq_true_eq] at hfailed ⊢
  cases hdue : (dueOf i computed).1 with
  | none =>
    rw [hdue] at hfailed
    rcases hfailed with hverdict | hoverdue
    · exact compare_doubt hverdict
    · unfold place at hoverdue
      cases hlast : i.lastCal with
      | none =>
        rw [hlast] at hoverdue
        cases hoverdue
      | some lastCal =>
        rw [hlast] at hoverdue
        simp only at hoverdue
        split_ifs at hoverdue
  | some due =>
    rw [hdue] at hfailed
    simp only
    split_ifs with hboth
    · simp [py]
    · rcases hfailed with hverdict | hoverdue
      · exact compare_doubt hverdict
      · exact fun hnil ↦ hboth ⟨hoverdue, by rw [hnil]; rfl⟩

theorem exists_of_mem_mapM {α β : Type} {f : α → Option β} {l : List α} {out : List β} {y : β}
    (h : l.mapM f = some out) (hy : y ∈ out) : ∃ x ∈ l, f x = some y := by
  induction l generalizing out with
  | nil =>
    obtain rfl : [] = out := by simpa using h
    cases hy
  | cons x l ih =>
    simp only [List.mapM_cons, Option.bind_eq_bind, Option.bind_eq_some_iff, Option.pure_def,
      Option.some.injEq] at h
    obtain ⟨first, hfirst, rest, hrest, rfl⟩ := h
    rcases List.mem_cons.mp hy with rfl | hy
    · exact ⟨x, List.mem_cons_self, hfirst⟩
    · obtain ⟨z, hz, hzy⟩ := ih hrest hy
      exact ⟨z, List.mem_cons_of_mem _ hz, hzy⟩

/-! ## The report -/

section

variable [Unicode] [Casing] {valves : Valves} {today : Date} {register asOf text : PyStr}
  {parsed : RegisterParse} {rows : List Assessment} {disposition : Disposition}

/-- A failed row has a line of its own among the results in doubt, each of them, exactly when no two
failed rows have the same tag. -/
theorem failed_rows_in_doubt_iff
    (h : checkCalibration valves today register asOf = some (.report parsed rows disposition text)) :
    (resultsInDoubt rows).Perm ((rows.filter Assessment.failed).map Assessment.doubtLine) ↔
      ((rows.filter Assessment.failed).map Assessment.tag).Nodup := by
  apply resultsInDoubt_perm_iff
  intro row hrow hfailed
  cases hat : readingDate valves today asOf with
  | none =>
    rw [checkCalibration] at h
    simp only [hat] at h
    split_ifs at h <;> cases h
  | some at_ =>
    obtain ⟨-, hrows, -⟩ := checkCalibration_report hat h
    obtain ⟨i, -, hassess⟩ := exists_of_mem_mapM hrows hrow
    exact assess_doubt hassess hfailed

end

/-! ## Two registers -/

def failedRegister (second : PyStr) : PyStr :=
  py "| Tag | Due date | Tolerance | As found |\n|---|---|---|---|\n" ++
    py "| PT-1 | 2026-12-01 | 0.5 bar | 0.9 bar |\n| " ++ second ++ py " | 2026-01-01 | 0.5 bar | 0.1 bar |"

/-- Parsed register, assessed rows, disposition and text of a report. -/
def Outcome.parts : Outcome → Option (RegisterParse × List Assessment × Disposition × PyStr)
  | .reply _ => none
  | .report parsed rows disposition text => some (parsed, rows, disposition, text)

theorem Outcome.eq_of_parts {o : Outcome} {p : RegisterParse × List Assessment × Disposition × PyStr}
    (h : o.parts = some p) : o = .report p.1 p.2.1 p.2.2.1 p.2.2.2 := by
  cases o with
  | reply => cases h
  | report =>
    cases h
    rfl

def failedParts (second : PyStr)
    (h : ((@checkCalibration asciiTables asciiCasing sampleValves sampleToday (failedRegister second) []).bind
      Outcome.parts).isSome = true) : RegisterParse × List Assessment × Disposition × PyStr :=
  ((@checkCalibration asciiTables asciiCasing sampleValves sampleToday (failedRegister second) []).bind
    Outcome.parts).get h

theorem checkCalibration_failedRegister (second : PyStr)
    (h : ((@checkCalibration asciiTables asciiCasing sampleValves sampleToday (failedRegister second) []).bind
      Outcome.parts).isSome = true) :
    @checkCalibration asciiTables asciiCasing sampleValves sampleToday (failedRegister second) [] =
      some (.report (failedParts second h).1 (failedParts second h).2.1 (failedParts second h).2.2.1
        (failedParts second h).2.2.2) := by
  have hget := (Option.some_get h).symm
  obtain ⟨o, ho, hparts⟩ := Option.bind_eq_some_iff.mp hget
  rw [ho, Outcome.eq_of_parts hparts]
  rfl

/-- Two tags, and each failed row has its line. -/
theorem failed_rows_in_doubt_two_tags :
    let parts := failedParts (py "PT-2") (by decide +kernel)
    (resultsInDoubt parts.2.1).Perm ((parts.2.1.filter Assessment.failed).map Assessment.doubtLine) ↔
      ((parts.2.1.filter Assessment.failed).map Assessment.tag).Nodup :=
  @failed_rows_in_doubt_iff asciiTables asciiCasing _ _ _ _ _ _ _ _
    (checkCalibration_failedRegister (py "PT-2") (by decide +kernel))

/-- The second row of `PT-1` is overdue, and the report names only what the first puts in doubt. -/
theorem second_doubt_lost :
    ∃ parsed rows disposition text,
      @checkCalibration asciiTables asciiCasing sampleValves sampleToday (failedRegister (py "PT-1")) [] =
          some (.report parsed rows disposition text) ∧
        ¬ (resultsInDoubt rows).Perm ((rows.filter Assessment.failed).map Assessment.doubtLine) :=
  ⟨_, _, _, _, checkCalibration_failedRegister (py "PT-1") (by decide +kernel), by decide +kernel⟩

end FourCE.Calibration

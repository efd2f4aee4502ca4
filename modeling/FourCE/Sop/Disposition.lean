import FourCE.Audit.Interpreter
import FourCE.Sop.Report

/-!
# When the disposition can be trusted

The heading, the disposition and the findings of a report are drawn from free-form strings of the
rule pack.  They agree exactly when the rules give verdicts and dispositions the check knows, and a
verdict against the equipment comes with a disposition against it.
-/

namespace FourCE.Sop

open FourCE.Python

/-! ## The worst disposition -/

theorem severity_fit : severity (py "FIT FOR SERVICE") = 0 := by decide

theorem fit_mem : py "FIT FOR SERVICE" ∈ dispositions := by decide

theorem incomplete_not_mem : py "ASSESSMENT INCOMPLETE" ∉ dispositions := by decide

theorem severity_inj {d e : PyStr} (hd : d ∈ dispositions) (h : severity d = severity e) : d = e :=
  (List.idxOf_inj hd).mp h

/-- The fold of `worst` ends at one of its candidates, none of which is more severe. -/
theorem foldl_worst (ds : List PyStr) (w : PyStr) :
    let last := ds.foldl (fun w d ↦ if severity w < severity d then d else w) w
    (last = w ∨ last ∈ ds) ∧ severity w ≤ severity last ∧ ∀ d ∈ ds, severity d ≤ severity last := by
  induction ds generalizing w with
  | nil => simp
  | cons d ds ih =>
    simp only [List.foldl_cons, List.mem_cons, forall_eq_or_imp]
    by_cases h : severity w < severity d
    · rw [if_pos h]
      obtain ⟨hmem, hle, hall⟩ := ih d
      refine ⟨?_, by omega, hle, hall⟩
      rcases hmem with hmem | hmem
      · exact Or.inr (Or.inl hmem)
      · exact Or.inr (Or.inr hmem)
    · rw [if_neg h]
      obtain ⟨hmem, hle, hall⟩ := ih w
      refine ⟨?_, hle, by omega, hall⟩
      rcases hmem with hmem | hmem
      · exact Or.inl hmem
      · exact Or.inr (Or.inr hmem)

theorem worst_mem (ds : List PyStr) : worst ds ∈ dispositions := by
  obtain ⟨hmem, -, -⟩ := foldl_worst (ds.filter (· ∈ dispositions)) (py "FIT FOR SERVICE")
  rcases hmem with hmem | hmem
  · rw [worst, hmem]
    exact fit_mem
  · exact of_decide_eq_true (List.mem_filter.mp hmem).2

theorem severity_le_worst {ds : List PyStr} {d : PyStr} (hd : d ∈ ds) (hknown : d ∈ dispositions) :
    severity d ≤ severity (worst ds) := by
  obtain ⟨-, -, hall⟩ := foldl_worst (ds.filter (· ∈ dispositions)) (py "FIT FOR SERVICE")
  exact hall d (List.mem_filter.mpr ⟨hd, decide_eq_true hknown⟩)

/-- The overall disposition is the mildest one exactly when no finding has another one of the list. -/
theorem worst_eq_fit_iff (ds : List PyStr) :
    worst ds = py "FIT FOR SERVICE" ↔ ∀ d ∈ ds, d ∈ dispositions → d = py "FIT FOR SERVICE" := by
  constructor
  · intro h d hd hknown
    have hle := severity_le_worst hd hknown
    rw [h, severity_fit] at hle
    exact severity_inj hknown (by rw [severity_fit]; omega)
  · intro h
    obtain ⟨hmem, -, -⟩ := foldl_worst (ds.filter (· ∈ dispositions)) (py "FIT FOR SERVICE")
    rcases hmem with hmem | hmem
    · exact hmem
    · have hin := List.mem_filter.mp hmem
      exact h _ hin.1 (of_decide_eq_true hin.2)

/-! ## What a report promises -/

/-- At least as restrictive, in the order of `DISPOSITIONS`.  `ASSESSMENT INCOMPLETE` stands outside
that order; `covers` says which dispositions it is counted at least as restrictive as. -/
def AtLeast (covers : PyStr → Prop) (overall d : PyStr) : Prop :=
  overall = d ∨ (overall ∈ dispositions ∧ d ∈ dispositions ∧ severity d ≤ severity overall) ∨
    overall = py "ASSESSMENT INCOMPLETE" ∧ covers d

/-- A report that reads no better than its findings. -/
structure Truthful (covers : PyStr → Prop) (a : Assessed) : Prop where
  heading : a.heading = py "## SOP assessment - " ++ a.sopId ++ py " - PASS" →
    ∀ f ∈ a.findings, f.verdict = py "PASS"
  fit : a.disposition = py "FIT FOR SERVICE" → ∀ f ∈ a.findings,
    f.verdict ≠ py "FAIL" ∧ f.verdict ≠ py "REVIEW" ∧ f.verdict ≠ py "NO DATA"
  restrictive : ∀ f ∈ a.findings, AtLeast covers a.disposition f.disposition

/-- A reading is missing and nothing failed: `ASSESSMENT INCOMPLETE` takes the place of the worst
disposition. -/
def Blocked (gives : Finding → Prop) : Prop :=
  (∃ f, gives f ∧ f.verdict = py "NO DATA") ∧ ¬ ∃ f, gives f ∧ f.verdict = py "FAIL"

/-- Findings in words the check knows. -/
structure WellSpoken (covers : PyStr → Prop) (gives : Finding → Prop) : Prop where
  /-- A verdict other than `PASS` never stands without one that counts against the equipment. -/
  verdicts : (∃ f, gives f ∧
      (f.verdict = py "FAIL" ∨ f.verdict = py "REVIEW" ∨ f.verdict = py "NO DATA")) ∨
    ∀ f, gives f → f.verdict = py "PASS"
  /-- A `FAIL`, or a `REVIEW` where no reading is missing, comes with a disposition of the list that
  is not the mildest. -/
  grounds : ((∃ f, gives f ∧ f.verdict = py "FAIL") ∨
      (∃ f, gives f ∧ f.verdict = py "REVIEW") ∧ ¬ ∃ f, gives f ∧ f.verdict = py "NO DATA") →
    ∃ f, gives f ∧ f.disposition ∈ dispositions ∧ f.disposition ≠ py "FIT FOR SERVICE"
  /-- Every disposition is one of the list; where `ASSESSMENT INCOMPLETE` takes their place, one that
  it covers. -/
  known : ∀ f, gives f → (¬ Blocked gives → f.disposition ∈ dispositions) ∧
    (Blocked gives → f.disposition = py "ASSESSMENT INCOMPLETE" ∨ covers f.disposition)

section Assessment

variable (a : Assessed)

theorem having_isEmpty (verdict : PyStr) :
    (a.having verdict).isEmpty = true ↔ ¬ ∃ f, f ∈ a.findings ∧ f.verdict = verdict := by
  simp [Assessed.having, List.filter_eq_nil_iff]

theorem having_isEmpty_eq_false (verdict : PyStr) :
    (a.having verdict).isEmpty = false ↔ ∃ f, f ∈ a.findings ∧ f.verdict = verdict := by
  rw [← not_iff_not, Bool.not_eq_false, having_isEmpty]

variable {a}

theorem disposition_of_blocked (hblock : a.blocking = true) (h : Blocked (· ∈ a.findings)) :
    a.disposition = py "ASSESSMENT INCOMPLETE" := by
  have hmissing := (having_isEmpty_eq_false a _).mpr h.1
  have hfailures := (having_isEmpty a _).mpr h.2
  rw [Assessed.disposition, Assessed.incomplete, Assessed.missing, Assessed.failures, hmissing,
    hfailures, hblock]
  rfl

theorem disposition_of_not_blocked (hblock : a.blocking = true) (h : ¬ Blocked (· ∈ a.findings)) :
    a.disposition = worst (a.findings.map Finding.disposition) := by
  rw [Assessed.disposition, if_neg]
  rw [Assessed.incomplete, hblock, Bool.and_true, Bool.and_eq_true, Bool.not_eq_true',
    Assessed.missing, Assessed.failures, having_isEmpty_eq_false, having_isEmpty]
  exact h

/-- The heading says `PASS` exactly when nothing failed, nothing is to be reviewed and nothing is
missing. -/
theorem heading_pass_iff (hblock : a.blocking = true) :
    a.heading = py "## SOP assessment - " ++ a.sopId ++ py " - PASS" ↔
      ¬ ∃ f, f ∈ a.findings ∧
        (f.verdict = py "FAIL" ∨ f.verdict = py "REVIEW" ∨ f.verdict = py "NO DATA") := by
  have hword : py " - PASS" = py " - " ++ py "PASS" := rfl
  have hclear : a.clear = true ↔ ¬ ∃ f, f ∈ a.findings ∧
      (f.verdict = py "FAIL" ∨ f.verdict = py "REVIEW" ∨ f.verdict = py "NO DATA") := by
    rw [Assessed.clear, Assessed.incomplete, hblock, Bool.and_true, Bool.not_not, Bool.and_eq_true,
      Bool.and_eq_true, Assessed.failures, Assessed.reviews, Assessed.missing, having_isEmpty,
      having_isEmpty, having_isEmpty]
    constructor
    · rintro ⟨⟨hfail, hreview⟩, hmissing⟩ ⟨f, hf, hverdict | hverdict | hverdict⟩
      · exact hfail ⟨f, hf, hverdict⟩
      · exact hreview ⟨f, hf, hverdict⟩
      · exact hmissing ⟨f, hf, hverdict⟩
    · intro h
      refine ⟨⟨?_, ?_⟩, ?_⟩
      · exact fun ⟨f, hf, hverdict⟩ ↦ h ⟨f, hf, Or.inl hverdict⟩
      · exact fun ⟨f, hf, hverdict⟩ ↦ h ⟨f, hf, Or.inr (Or.inl hverdict)⟩
      · exact fun ⟨f, hf, hverdict⟩ ↦ h ⟨f, hf, Or.inr (Or.inr hverdict)⟩
  rw [← hclear, Assessed.heading, Assessed.status, hword, ← List.append_assoc,
    List.append_cancel_left_eq]
  cases a.clear with
  | true => simp
  | false =>
    simp only [Bool.false_eq_true, if_false, iff_false]
    decide

/-- A report is truthful exactly when its findings are in words the check knows. -/
theorem truthful_iff (covers : PyStr → Prop) (hblock : a.blocking = true) :
    Truthful covers a ↔ WellSpoken covers (· ∈ a.findings) := by
  constructor
  · intro h
    refine ⟨?_, ?_, ?_⟩
    · by_cases hagainst : ∃ f, f ∈ a.findings ∧
          (f.verdict = py "FAIL" ∨ f.verdict = py "REVIEW" ∨ f.verdict = py "NO DATA")
      · exact Or.inl hagainst
      · exact Or.inr (h.heading ((heading_pass_iff hblock).mpr hagainst))
    · intro hgrounds
      have hfree : ¬ Blocked (· ∈ a.findings) := by
        rintro ⟨hmissing, hfailures⟩
        rcases hgrounds with hfail | ⟨-, hnone⟩
        · exact hfailures hfail
        · exact hnone hmissing
      by_contra hmild
      have hworst : a.disposition = py "FIT FOR SERVICE" := by
        rw [disposition_of_not_blocked hblock hfree, worst_eq_fit_iff]
        intro d hd hknown
        obtain ⟨f, hf, rfl⟩ := List.mem_map.mp hd
        by_contra hne
        exact hmild ⟨f, hf, hknown, hne⟩
      rcases hgrounds with ⟨f, hf, hverdict⟩ | ⟨⟨f, hf, hverdict⟩, -⟩
      · exact (h.fit hworst f hf).1 hverdict
      · exact (h.fit hworst f hf).2.1 hverdict
    · intro f hf
      refine ⟨fun hfree ↦ ?_, fun hblocked ↦ ?_⟩
      · have hoverall := disposition_of_not_blocked hblock hfree
        rcases h.restrictive f hf with heq | ⟨-, hknown, -⟩ | ⟨hincomplete, -⟩
        · rw [← heq, hoverall]
          exact worst_mem _
        · exact hknown
        · have hmem := worst_mem (a.findings.map Finding.disposition)
          rw [← hoverall, hincomplete] at hmem
          exact absurd hmem incomplete_not_mem
      · have hoverall := disposition_of_blocked hblock hblocked
        rcases h.restrictive f hf with heq | ⟨hknown, -, -⟩ | ⟨-, hcovers⟩
        · exact Or.inl (heq.symm.trans hoverall)
        · rw [hoverall] at hknown
          exact absurd hknown incomplete_not_mem
        · exact Or.inr hcovers
  · intro h
    refine ⟨?_, ?_, ?_⟩
    · intro hheading
      rcases h.verdicts with hagainst | hpass
      · exact absurd hagainst ((heading_pass_iff hblock).mp hheading)
      · exact hpass
    · intro hfit
      have hfree : ¬ Blocked (· ∈ a.findings) := by
        intro hblocked
        rw [disposition_of_blocked hblock hblocked] at hfit
        exact incomplete_not_mem (hfit ▸ fit_mem)
      have hmild : ¬ ∃ f, f ∈ a.findings ∧ f.disposition ∈ dispositions ∧
          f.disposition ≠ py "FIT FOR SERVICE" := by
        rw [disposition_of_not_blocked hblock hfree, worst_eq_fit_iff] at hfit
        rintro ⟨f, hf, hknown, hne⟩
        exact hne (hfit _ (List.mem_map_of_mem hf) hknown)
      have hnone := fun hgrounds ↦ hmild (h.grounds hgrounds)
      have hfailures : ¬ ∃ f, f ∈ a.findings ∧ f.verdict = py "FAIL" := fun hf ↦ hnone (Or.inl hf)
      have hmissing : ¬ ∃ f, f ∈ a.findings ∧ f.verdict = py "NO DATA" :=
        fun hm ↦ hfree ⟨hm, hfailures⟩
      intro f hf
      refine ⟨fun hv ↦ hfailures ⟨f, hf, hv⟩, fun hv ↦ ?_, fun hv ↦ hmissing ⟨f, hf, hv⟩⟩
      exact hnone (Or.inr ⟨⟨f, hf, hv⟩, hmissing⟩)
    · intro f hf
      by_cases hblocked : Blocked (· ∈ a.findings)
      · rw [AtLeast, disposition_of_blocked hblock hblocked]
        rcases (h.known f hf).2 hblocked with heq | hcovers
        · exact Or.inl heq.symm
        · exact Or.inr (Or.inr ⟨rfl, hcovers⟩)
      · rw [AtLeast, disposition_of_not_blocked hblock hblocked]
        have hknown := (h.known f hf).1 hblocked
        exact Or.inr (Or.inl ⟨worst_mem _, hknown,
          severity_le_worst (List.mem_map_of_mem hf) hknown⟩)

end Assessment

/-! ## Packs -/

section Packs

variable [Unicode] [Casing] {F : Type} [Runtime F]

/-- `_assess` gives this finding for one of the rules. -/
def Gives (pack : List (PyStr × Json F)) (text : PyStr) (f : Finding) : Prop :=
  ∃ rule ∈ rulesOf pack, ∃ spans, assessOf rule text = some (f, spans)

omit [Unicode] [Casing] in
theorem mem_of_mapM {α β : Type} {g : α → Option β} {xs : List α} {ys : List β}
    (h : xs.mapM g = some ys) (y : β) : y ∈ ys ↔ ∃ x ∈ xs, g x = some y := by
  induction xs generalizing ys with
  | nil =>
    cases h
    simp
  | cons x xs ih =>
    rw [List.mapM_cons] at h
    obtain ⟨z, hz, h⟩ := Option.bind_eq_some_iff.mp h
    obtain ⟨zs, hzs, h⟩ := Option.bind_eq_some_iff.mp h
    cases h
    rw [List.mem_cons, ih hzs, List.exists_mem_cons_iff, hz]
    simp [eq_comm]

/-- The findings of a report are those the rules give. -/
theorem mem_findings {blocking : Bool} {pack : List (PyStr × Json F)} {text : PyStr} {a : Assessed}
    (h : assessPack blocking pack text = some a) (f : Finding) :
    f ∈ a.findings ↔ Gives pack text f := by
  obtain ⟨found, hfound, h⟩ := Option.bind_eq_some_iff.mp h
  cases h
  constructor
  · intro hf
    obtain ⟨⟨_, spans⟩, hmem, rfl⟩ := List.mem_map.mp hf
    obtain ⟨rule, hrule, hassess⟩ := (mem_of_mapM hfound _).mp hmem
    exact ⟨rule, hrule, spans, hassess⟩
  · rintro ⟨rule, hrule, spans, hassess⟩
    exact List.mem_map.mpr ⟨(f, spans), (mem_of_mapM hfound _).mpr ⟨rule, hrule, hassess⟩, rfl⟩

/-- On a text and with a pack that are there, the tool reports on what the pack makes of the text. -/
theorem checkSopThresholds_eq {decodeError : PyStr → PyStr} {valves : SopValves}
    {pack : List (PyStr × Json F)} (hpack : rulePack decodeError valves = .ok pack)
    {readings : PyStr} (hread : strip readings ≠ []) :
    checkSopThresholds F decodeError valves readings =
      (assessPack valves.blockOnMissingData pack (strip readings)).map Assessed.report := by
  rw [checkSopThresholds, if_neg (by simpa using hread), hpack]

/-- With `block_on_missing_data` on, the report on a text reads no better than the findings of the
rules exactly when these come in words the check knows. -/
theorem report_truthful_iff (covers : PyStr → Prop) (decodeError : PyStr → PyStr) {valves : SopValves}
    (hblock : valves.blockOnMissingData = true) {pack : List (PyStr × Json F)}
    (hpack : rulePack decodeError valves = .ok pack) {readings report : PyStr}
    (hread : strip readings ≠ [])
    (h : checkSopThresholds F decodeError valves readings = some report) :
    ∃ a, assessPack true pack (strip readings) = some a ∧ report = a.report ∧
      (Truthful covers a ↔ WellSpoken covers (Gives pack (strip readings))) := by
  rw [checkSopThresholds_eq hpack hread] at h
  obtain ⟨a, ha, hreport⟩ := Option.map_eq_some_iff.mp h
  rw [hblock] at ha
  have hblocking : a.blocking = true := by
    obtain ⟨found, -, hfound⟩ := Option.bind_eq_some_iff.mp ha
    cases hfound
    rfl
  have hgives : (· ∈ a.findings) = Gives pack (strip readings) := by
    funext f
    exact propext (mem_findings ha f)
  refine ⟨a, ha, hreport.symm, ?_⟩
  rw [truthful_iff covers hblocking, hgives]

end Packs

/-! ## A failure that reads as fit -/

section Sample

def numeralRat (n : Numeral) : ℚ :=
  let size : ℚ := n.int + match n.frac with
    | some d => (ofDigits d.toList : ℚ) / powTen d.toList.length
    | none => 0
  let scaled := size * powTen (match n.exp with
    | some (sign, d) => if sign = some true then -(ofDigits d.toList) else ofDigits d.toList
    | none => 0)
  if n.neg then -scaled else scaled

/-- An interpreter whose floats are their texts, with the patterns of this development. -/
@[reducible]
def textRuntime [Unicode] : Runtime FloatLit where
  double
    | .num n => .ofRat (numeralRat n)
    | .inf neg => .inf neg
    | .nan => .nan
  parseFloat := floatOf
  containerText _ := []
  format note value := some (replace (py "\x7bvalue\x7d") value note)
  search p text := (compile ignoreCase p).map fun r ↦ reSearch r text
  finditer p text := (compile ignoreCase p).map fun r ↦ reFinditer r text

/-- A pack of one rule, whose failure names no disposition. -/
def weldValves : SopValves where
  rulePack := py "\x7b\"rules\": [\x7b\"type\": \"presence\", \"parameter\": \"Weld\", " ++
    (py "\"defect_patterns\": [\"crack\"], " ++
      py "\"defect\": \x7b\"verdict\": \"FAIL\", \"clause\": \"4.1\"\x7d, " ++
      py "\"clear\": \x7b\"verdict\": \"PASS\"\x7d\x7d]\x7d")
  blockOnMissingData := true

/-- What the pack of the valve makes of a text. -/
def weldAssessed (text : PyStr) : Option Assessed :=
  (@rulePack FloatLit (@textRuntime asciiTables) id weldValves).toOption.bind fun pack ↦
    @assessPack asciiTables asciiCasing FloatLit (@textRuntime asciiTables) true pack text

theorem weldAssessed_eq_some {text : PyStr} {a : Assessed} (h : weldAssessed text = some a) :
    ∃ pack, @rulePack FloatLit (@textRuntime asciiTables) id weldValves = .ok pack ∧
      @assessPack asciiTables asciiCasing FloatLit (@textRuntime asciiTables) true pack text = some a := by
  obtain ⟨pack, hpack, hassessed⟩ := Option.bind_eq_some_iff.mp h
  cases hresult : @rulePack FloatLit (@textRuntime asciiTables) id weldValves with
  | error why =>
    rw [hresult] at hpack
    cases hpack
  | ok found =>
    rw [hresult] at hpack
    cases hpack
    exact ⟨pack, rfl, hassessed⟩

theorem weldAssessed_crack : (weldAssessed (py "crack at the weld")).map
    (fun a ↦ (a.findings.map Finding.verdict, a.disposition)) =
      some ([py "FAIL"], py "FIT FOR SERVICE") := by
  decide +kernel

/-- A rule that failed, under `FIT FOR SERVICE`. -/
theorem failure_reads_as_fit : ∃ pack a,
    @rulePack FloatLit (@textRuntime asciiTables) id weldValves = .ok pack ∧
      @assessPack asciiTables asciiCasing FloatLit (@textRuntime asciiTables) true pack
        (py "crack at the weld") = some a ∧
      (∃ f ∈ a.findings, f.verdict = py "FAIL") ∧ a.disposition = py "FIT FOR SERVICE" ∧
      ¬ Truthful (fun _ ↦ True) a := by
  obtain ⟨a, ha, hfields⟩ := Option.map_eq_some_iff.mp weldAssessed_crack
  obtain ⟨hverdicts, hdisposition⟩ := Prod.mk.inj hfields
  obtain ⟨pack, hpack, hassessed⟩ := weldAssessed_eq_some ha
  have hmem : py "FAIL" ∈ a.findings.map Finding.verdict := by
    rw [hverdicts]
    exact List.mem_singleton_self _
  obtain ⟨f, hf, hverdict⟩ := List.mem_map.mp hmem
  exact ⟨pack, a, hpack, hassessed, ⟨f, hf, hverdict⟩, hdisposition,
    fun h ↦ (h.fit hdisposition f hf).1 hverdict⟩

/-- On a text that reports no crack the same pack is truthful. -/
theorem report_truthful_iff_clear : ∃ pack a,
    @rulePack FloatLit (@textRuntime asciiTables) id weldValves = .ok pack ∧
      @assessPack asciiTables asciiCasing FloatLit (@textRuntime asciiTables) true pack
        (py "sound weld") = some a ∧
      (Truthful (fun _ ↦ True) a ↔ @WellSpoken (fun _ ↦ True)
        (@Gives asciiTables asciiCasing FloatLit (@textRuntime asciiTables) pack (py "sound weld"))) := by
  have hsome : (weldAssessed (py "sound weld")).isSome = true := by decide +kernel
  obtain ⟨a, ha⟩ := Option.isSome_iff_exists.mp hsome
  obtain ⟨pack, hpack, hassessed⟩ := weldAssessed_eq_some ha
  have hstrip : strip (py "sound weld") = py "sound weld" := by decide
  have hreport : @checkSopThresholds asciiTables asciiCasing FloatLit (@textRuntime asciiTables) id
      weldValves (py "sound weld") = some a.report := by
    rw [@checkSopThresholds_eq asciiTables asciiCasing FloatLit (@textRuntime asciiTables) id weldValves
      pack hpack (py "sound weld") (by decide), hstrip]
    exact congrArg (Option.map Assessed.report) hassessed
  obtain ⟨b, hb, -, hiff⟩ := @report_truthful_iff asciiTables asciiCasing FloatLit
    (@textRuntime asciiTables) (fun _ ↦ True) id weldValves rfl pack hpack (py "sound weld") a.report
    (by decide) hreport
  rw [hstrip] at hb hiff
  exact ⟨pack, b, hpack, hb, hiff⟩

end Sample

end FourCE.Sop

import FourCE.Calibration.Values
import FourCE.Library.RegexFirst
import FourCE.Library.RegexGroups
import FourCE.Library.RegexSpellings
import FourCE.Python.ReClasses

/-!
# What a quantity is found in

The parts of a match of `_QUANTITY`: a sign, blanks, a number, blanks and a unit.
-/

namespace FourCE.Calibration

open FourCE.Library.Regex FourCE.Python

/-! ## The pattern -/

/-- `\s` where case is ignored. -/
def whiteFolded : CharClass := ⟨false, [.space true], true⟩

/-- `\d` where case is ignored. -/
def digitFolded : CharClass := ⟨false, [.digit true], true⟩

/-- A decimal point where case is ignored. -/
def pointFolded : CharClass := ⟨false, [.one 46], true⟩

def signClass : CharClass := ⟨false, [.one 43, .one 45], true⟩

def blanksFolded : Pattern := .rep true 0 none (.char whiteFolded)

def digitsFolded : Pattern := .rep true 1 none (.char digitFolded)

/-- `\d+(?:\.\d+)?`. -/
def numberPattern : Pattern :=
  .seq digitsFolded (.seq (.rep true 0 (some 1) (.seq (.char pointFolded) (.seq digitsFolded .eps))) .eps)

/-- `_UNIT`, where case is ignored. -/
def unitPattern : Pattern := re { ignoreCase := true } UNIT (by decide +kernel)

theorem QUANTITY_eq : QUANTITY =
    .seq (.group 1 (.seq (.rep true 0 (some 1) (.char signClass)) .eps)) (.seq blanksFolded
      (.seq (.group 2 numberPattern) (.seq blanksFolded (.seq (.group 3 unitPattern) .eps)))) := by
  rw [QUANTITY, unitPattern, re, re]
  decide +kernel

theorem captureless_unitPattern : captureless unitPattern = true := by
  rw [unitPattern, re]
  decide +kernel

/-! ## Its parts -/

/-- A sign or none. -/
def IsSign (s : PyStr) : Prop := s = [] ∨ s = [43] ∨ s = [45]

variable [Unicode]

/-- Digits with a decimal point among them or none. -/
inductive IsNumber : PyStr → Prop
  | whole {d : PyStr} (hd : IsDigits d) : IsNumber d
  | fraction {d f : PyStr} (hd : IsDigits d) (hf : IsDigits f) : IsNumber (d ++ 46 :: f)

/-- A unit of the tool is read between these texts. -/
def UnitBetween (before unit rest : PyStr) : Prop :=
  ∃ v ∈ run sre unitPattern ⟨before, unit ++ rest, []⟩, v.after = rest

omit [Unicode] in
theorem foldCase_eq_iff {x c : CodePoint} (hc : c.val < 65) : foldCase x = c ↔ x = c := by
  have hself : foldCase c = c := by
    unfold foldCase
    split_ifs with h1 h2 h3 h4 h5 <;> first | rfl | omega
  constructor
  · intro h
    unfold foldCase at h
    split_ifs at h with h1
    · have hval := congrArg Fin.val h
      simp only at hval
      omega
    all_goals first | exact h | (rw [← h] at hc; exact absurd hc (by decide))
  · rintro rfl
    exact hself

theorem accepts_folded {c : CodePoint} (hc : c.val < 65) (x : CodePoint) :
    Item.accepts true x (.one c) = true ↔ x = c := by
  have hself : foldCase c = c := (foldCase_eq_iff hc).mpr rfl
  rw [Item.accepts, if_pos rfl, decide_eq_true_eq, hself, foldCase_eq_iff hc]

theorem pointFolded_accepts (x : CodePoint) : sre.accepts pointFolded x = true ↔ x = 46 := by
  rw [← accepts_folded (c := 46) (by decide) x]
  simp [sre, pointFolded, CharClass.accepts]

theorem signClass_accepts (x : CodePoint) : sre.accepts signClass x = true ↔ x = 43 ∨ x = 45 := by
  rw [← accepts_folded (c := 43) (by decide) x, ← accepts_folded (c := 45) (by decide) x]
  simp [sre, signClass, CharClass.accepts]

theorem whiteFolded_accepts (x : CodePoint) : sre.accepts whiteFolded x = isWhite x := by
  simp [sre, whiteFolded, CharClass.accepts, Item.accepts]

theorem digitFolded_accepts (x : CodePoint) : sre.accepts digitFolded x = isDigit x := by
  simp [sre, digitFolded, CharClass.accepts, Item.accepts, isDigit]

theorem mem_run_blanksFolded {s t : State CodePoint} :
    t ∈ run sre blanksFolded s ↔ ∃ u rest, s.after = u ++ rest ∧ White u ∧ t = s.past u rest := by
  rw [blanksFolded, mem_run_rep_char]
  constructor
  · rintro ⟨u, rest, hafter, hu, -, -, ht⟩
    exact ⟨u, rest, hafter, fun c hc ↦ (whiteFolded_accepts c).symm.trans (hu c hc), ht⟩
  · rintro ⟨u, rest, hafter, hu, ht⟩
    exact ⟨u, rest, hafter, fun c hc ↦ (whiteFolded_accepts c).trans (hu c hc), Nat.zero_le _, nofun, ht⟩

theorem mem_run_digitsFolded {s t : State CodePoint} :
    t ∈ run sre digitsFolded s ↔ ∃ d rest, s.after = d ++ rest ∧ IsDigits d ∧ t = s.past d rest := by
  rw [digitsFolded, mem_run_rep_char]
  constructor
  · rintro ⟨d, rest, hafter, hd, hone, -, ht⟩
    exact ⟨d, rest, hafter, ⟨List.length_pos_iff.mp hone, fun c hc ↦
      (digitFolded_accepts c).symm.trans (hd c hc)⟩, ht⟩
  · rintro ⟨d, rest, hafter, hd, ht⟩
    exact ⟨d, rest, hafter, fun c hc ↦ (digitFolded_accepts c).trans (hd.all c hc),
      List.length_pos_iff.mpr hd.ne_nil, nofun, ht⟩

theorem mem_run_sign {s t : State CodePoint} :
    t ∈ run sre (.rep true 0 (some 1) (.char signClass) : Pattern) s ↔
      ∃ sign rest, s.after = sign ++ rest ∧ IsSign sign ∧ t = s.past sign rest := by
  rw [mem_run_rep_char]
  constructor
  · rintro ⟨u, rest, hafter, hu, -, hone, ht⟩
    refine ⟨u, rest, hafter, ?_, ht⟩
    rcases u with _ | ⟨c, _ | ⟨d, u⟩⟩
    · exact Or.inl rfl
    · rcases (signClass_accepts c).mp (hu c List.mem_cons_self) with rfl | rfl
      · exact Or.inr (Or.inl rfl)
      · exact Or.inr (Or.inr rfl)
    · have htwo := hone 1 rfl
      rw [List.length_cons, List.length_cons] at htwo
      omega
  · rintro ⟨u, rest, hafter, hu, ht⟩
    refine ⟨u, rest, hafter, ?_, Nat.zero_le _, ?_, ht⟩
    · rcases hu with rfl | rfl | rfl
      · nofun
      · exact List.forall_mem_singleton.mpr ((signClass_accepts 43).mpr (Or.inl rfl))
      · exact List.forall_mem_singleton.mpr ((signClass_accepts 45).mpr (Or.inr rfl))
    · rintro k hk
      rw [← Option.some.inj hk]
      rcases hu with rfl | rfl | rfl <;> decide

theorem mem_run_number {s t : State CodePoint} :
    t ∈ run sre numberPattern s ↔ ∃ u rest, s.after = u ++ rest ∧ IsNumber u ∧ t = s.past u rest := by
  have hfraction : ∀ {v w : State CodePoint}, w ∈ run sre (.seq (.char pointFolded) (.seq digitsFolded .eps)) v ↔
      ∃ f rest, v.after = 46 :: f ++ rest ∧ IsDigits f ∧ w = v.past (46 :: f) rest := by
    intro v w
    rw [mem_run_seq]
    constructor
    · rintro ⟨x, hx, hw⟩
      obtain ⟨c, rest, hafter, hc, rfl⟩ := mem_run_char.mp hx
      obtain rfl := (pointFolded_accepts c).mp hc
      obtain ⟨y, hy, hw⟩ := mem_run_seq.mp hw
      obtain ⟨f, more, hrest, hf, rfl⟩ := mem_run_digitsFolded.mp hy
      obtain rfl := mem_run_eps.mp hw
      obtain rfl : rest = f ++ more := hrest
      exact ⟨f, more, hafter, hf, State.past_past v [46] f _ more⟩
    · rintro ⟨f, rest, hafter, hf, rfl⟩
      exact ⟨_, mem_run_char.mpr ⟨46, f ++ rest, hafter, (pointFolded_accepts 46).mpr rfl, rfl⟩,
        mem_run_seq.mpr ⟨_, mem_run_digitsFolded.mpr ⟨f, rest, rfl, hf, rfl⟩,
          mem_run_eps.mpr (State.past_past v [46] f _ rest).symm⟩⟩
  rw [numberPattern, mem_run_seq]
  constructor
  · rintro ⟨v, hv, ht⟩
    obtain ⟨d, rest, hafter, hd, rfl⟩ := mem_run_digitsFolded.mp hv
    obtain ⟨w, hw, ht⟩ := mem_run_seq.mp ht
    obtain rfl := mem_run_eps.mp ht
    rcases (mem_run_optional_iff rfl).mp hw with rfl | hw
    · exact ⟨d, rest, hafter, .whole hd, rfl⟩
    · obtain ⟨f, more, hrest, hf, rfl⟩ := hfraction.mp hw
      obtain rfl : rest = 46 :: f ++ more := hrest
      exact ⟨d ++ 46 :: f, more, by rw [hafter, List.append_assoc], .fraction hd hf,
        State.past_past s d (46 :: f) _ more⟩
  · rintro ⟨u, rest, hafter, hu, rfl⟩
    cases hu with
    | whole hd =>
      exact ⟨_, mem_run_digitsFolded.mpr ⟨u, rest, hafter, hd, rfl⟩, mem_run_seq.mpr
        ⟨_, (mem_run_optional_iff rfl).mpr (Or.inl rfl), mem_run_eps.mpr rfl⟩⟩
    | @fraction d f hd hf =>
      rw [List.append_assoc] at hafter
      exact ⟨_, mem_run_digitsFolded.mpr ⟨d, _, hafter, hd, rfl⟩, mem_run_seq.mpr
        ⟨_, (mem_run_optional_iff rfl).mpr (Or.inr (hfraction.mpr ⟨f, rest, rfl, hf, rfl⟩)),
          mem_run_eps.mpr (State.past_past s d (46 :: f) _ rest).symm⟩⟩

/-- The parts of a quantity that stands in front of `rest`. -/
structure Parts (before after sign gap number gap' unit rest : PyStr) : Prop where
  text : after = sign ++ (gap ++ (number ++ (gap' ++ (unit ++ rest))))
  isSign : IsSign sign
  white : White gap
  isNumber : IsNumber number
  white' : White gap'
  isUnit : UnitBetween ((sign ++ (gap ++ (number ++ gap'))).reverse ++ before) unit rest

theorem exists_parts {before after : PyStr} {t : State CodePoint} (h : t ∈ run sre QUANTITY ⟨before, after, []⟩) :
    ∃ sign gap number gap' unit, Parts before after sign gap number gap' unit t.after ∧
      t.groups = [(3, unit), (2, number), (1, sign)] := by
  rw [QUANTITY_eq] at h
  obtain ⟨v₁, hv₁, h⟩ := mem_run_seq.mp h
  obtain ⟨w₁, hw₁, rfl⟩ := mem_run_group.mp hv₁
  obtain ⟨x₁, hx₁, hxw⟩ := mem_run_seq.mp hw₁
  obtain rfl := mem_run_eps.mp hxw
  obtain ⟨sign, r₁, hr₁, hsign, rfl⟩ := mem_run_sign.mp hx₁
  obtain ⟨v₂, hv₂, h⟩ := mem_run_seq.mp h
  obtain ⟨gap, r₂, hr₂, hgap, rfl⟩ := mem_run_blanksFolded.mp hv₂
  obtain ⟨v₃, hv₃, h⟩ := mem_run_seq.mp h
  obtain ⟨w₃, hw₃, rfl⟩ := mem_run_group.mp hv₃
  obtain ⟨number, r₃, hr₃, hnumber, rfl⟩ := mem_run_number.mp hw₃
  obtain ⟨v₄, hv₄, h⟩ := mem_run_seq.mp h
  obtain ⟨gap', r₄, hr₄, hgap', rfl⟩ := mem_run_blanksFolded.mp hv₄
  obtain ⟨v₅, hv₅, h⟩ := mem_run_seq.mp h
  obtain rfl := mem_run_eps.mp h
  obtain ⟨w₅, hw₅, rfl⟩ := mem_run_group.mp hv₅
  obtain ⟨unit, hunit, hbefore⟩ := run_reaches _ _ _ hw₅
  obtain rfl : after = sign ++ r₁ := hr₁
  obtain rfl : r₁ = gap ++ r₂ := hr₂
  obtain rfl : r₂ = number ++ r₃ := hr₃
  obtain rfl : r₃ = gap' ++ r₄ := hr₄
  obtain rfl : r₄ = unit ++ w₅.after := hunit
  refine ⟨sign, gap, number, gap', unit, ⟨rfl, hsign, hgap, hnumber, hgap', ?_⟩, ?_⟩
  · obtain ⟨v, hv, hplace⟩ := exists_run_samePlace
      (t := ⟨(sign ++ (gap ++ (number ++ gap'))).reverse ++ before, unit ++ w₅.after, []⟩) hw₅
      ⟨by simp [State.past], rfl⟩
    exact ⟨v, hv, hplace.2⟩
  · have hgroups := run_captureless captureless_unitPattern _ _ hw₅
    rw [hgroups]
    simp [State.upTo, State.past]

/-- The parts of a quantity make a match. -/
theorem Parts.exists_run {before after sign gap number gap' unit rest : PyStr}
    (h : Parts before after sign gap number gap' unit rest) : ∃ t, t ∈ run sre QUANTITY ⟨before, after, []⟩ := by
  obtain ⟨rfl, hsign, hgap, hnumber, hgap', v, hv, rfl⟩ := h
  rw [QUANTITY_eq]
  obtain ⟨w, hw, -⟩ := exists_run_samePlace
    (t := ⟨(sign ++ (gap ++ (number ++ gap'))).reverse ++ before, unit ++ v.after, [(2, number), (1, sign)]⟩) hv
    ⟨rfl, rfl⟩
  refine ⟨_, mem_run_seq.mpr ⟨_, mem_run_group.mpr ⟨_, mem_run_seq.mpr ⟨_, mem_run_sign.mpr
    ⟨sign, _, rfl, hsign, rfl⟩, mem_run_eps.mpr rfl⟩, rfl⟩, mem_run_seq.mpr ⟨_, mem_run_blanksFolded.mpr
    ⟨gap, _, rfl, hgap, rfl⟩, mem_run_seq.mpr ⟨_, mem_run_group.mpr ⟨_, mem_run_number.mpr
    ⟨number, _, rfl, hnumber, rfl⟩, rfl⟩, mem_run_seq.mpr ⟨_, mem_run_blanksFolded.mpr
    ⟨gap', _, rfl, hgap', rfl⟩, mem_run_seq.mpr ⟨_, mem_run_group.mpr ⟨w, ?_, rfl⟩, mem_run_eps.mpr rfl⟩⟩⟩⟩⟩⟩
  simpa [State.past, State.upTo] using hw

/-- Where the first quantity of a text is, and that none begins in front of it. -/
structure FirstQuantity (text prior sign gap number gap' unit rest : PyStr) : Prop where
  parts : ∃ after, text = prior ++ after ∧ Parts prior.reverse after sign gap number gap' unit rest
  leftmost : ∀ v w after, text = v ++ after → prior = v ++ w → w ≠ [] →
    ∀ sign gap number gap' unit rest, ¬ Parts v.reverse after sign gap number gap' unit rest

theorem firstQuantity_of_reSearch {text : PyStr} {m : Match} (h : reSearch QUANTITY text = some m) :
    ∃ prior gap gap', FirstQuantity text prior (groupText m 1) gap (groupText m 2) gap' (groupText m 3)
      m.found.stop.after := by
  obtain ⟨found, hfound, rfl⟩ := Option.map_eq_some_iff.mp h
  obtain ⟨prior, after, rfl, -, hstop, hno⟩ := searchFrom_eq_some hfound
  rw [List.append_nil] at hstop
  obtain ⟨sign, gap, number, gap', unit, hparts, hgroups⟩ := exists_parts hstop
  refine ⟨prior, gap, gap', ⟨after, rfl, ?_⟩, ?_⟩
  · simpa [groupText, Match.group, Found.group, hgroups] using hparts
  · intro v w after' htext hprior hw sign gap number gap' unit rest hparts
    subst hprior
    rw [List.append_assoc] at htext
    obtain rfl := List.append_cancel_left htext
    obtain ⟨t, ht⟩ := hparts.exists_run
    have hempty := hno v w rfl hw
    rw [List.append_nil] at hempty
    rw [hempty] at ht
    cases ht

/-- Where a quantity stands a first one is found. -/
theorem Parts.isSome {prior after sign gap number gap' unit rest : PyStr}
    (h : Parts prior.reverse after sign gap number gap' unit rest) :
    (reSearch QUANTITY (prior ++ after)).isSome = true := by
  obtain ⟨t, ht⟩ := h.exists_run
  rw [reSearch, Option.isSome_map, search_isSome_iff]
  exact ⟨prior, after, rfl, List.ne_nil_of_mem ht⟩

/-! ## The number of a quantity -/

theorem exists_decimals {s : PyStr} (h : ∀ c ∈ s, isDigit c = true) :
    ∃ ds, decimals s = some ds ∧ ds.length = s.length := by
  induction s with
  | nil => exact ⟨[], rfl, rfl⟩
  | cons c s ih =>
    obtain ⟨ds, hds, hlength⟩ := ih fun d hd ↦ h d (List.mem_cons_of_mem c hd)
    obtain ⟨d, hd⟩ := Option.isSome_iff_exists.mp (h c List.mem_cons_self)
    refine ⟨d :: ds, ?_, by rw [List.length_cons, List.length_cons, hlength]⟩
    rw [decimals, hd, hds]
    rfl

theorem digit_ne_point {c : CodePoint} (h : isDigit c = true) : c ≠ 46 := by
  rintro rfl
  exact absurd ((isDigit_ascii (by decide)).mp h) (by decide)

theorem span_digits {d rest : PyStr} (hd : ∀ c ∈ d, isDigit c = true)
    (hrest : ∀ c ∈ rest.head?, c = 46) : (d ++ rest).span (· ≠ 46) = (d, rest) := by
  have hall : ∀ c ∈ d, decide (c ≠ 46) = true := fun c hc ↦ decide_eq_true (digit_ne_point (hd c hc))
  rw [List.span_eq_takeWhile_dropWhile, List.takeWhile_append_of_pos hall, List.dropWhile_append_of_pos hall]
  cases rest with
  | nil => simp
  | cons c rest =>
    obtain rfl := hrest c rfl
    simp

theorem floatOf_whole {d : PyStr} (hd : IsDigits d) {ds : List (Fin 10)} (hds : decimals d = some ds) :
    floatOf d = some (.ofRat (ofDigits ds)) := by
  have hspan : (d ++ []).span (· ≠ 46) = (d, []) := span_digits hd.all nofun
  rw [List.append_nil] at hspan
  rw [floatOf, hspan]
  cases d with
  | nil => exact absurd rfl hd.ne_nil
  | cons c d =>
    simp only [hds, Option.map_some]

theorem floatOf_fraction {d f : PyStr} (hd : IsDigits d) (hf : IsDigits f) {ds fs : List (Fin 10)}
    (hds : decimals d = some ds) (hfs : decimals f = some fs) :
    floatOf (d ++ 46 :: f) = some (.ofRat (ofDigits ds + ofDigits fs / powTen fs.length)) := by
  have hspan : (d ++ 46 :: f).span (· ≠ 46) = (d, 46 :: f) :=
    span_digits hd.all fun c hc ↦ (Option.some.inj hc).symm
  rw [floatOf, hspan]
  cases d with
  | nil => exact absurd rfl hd.ne_nil
  | cons c d =>
    simp only [if_neg hf.ne_nil, hds, hfs]
    rfl

theorem IsNumber.exists_floatOf {s : PyStr} (h : IsNumber s) : ∃ x, floatOf s = some x := by
  cases h with
  | whole hd =>
    obtain ⟨ds, hds, -⟩ := exists_decimals hd.all
    exact ⟨_, floatOf_whole hd hds⟩
  | fraction hd hf =>
    obtain ⟨ds, hds, -⟩ := exists_decimals hd.all
    obtain ⟨fs, hfs, -⟩ := exists_decimals hf.all
    exact ⟨_, floatOf_fraction hd hf hds hfs⟩

end FourCE.Calibration

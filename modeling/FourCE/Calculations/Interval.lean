import FourCE.Calculations.Report

/-!
# The next measurement and what limits it

The interval is merged in two places, once for the request and once for each location.  Both keep
the shortest, except that a code maximum of zero, which the text can state, is neither replaced by
another interval nor applied: a location is then limited by nothing but half its remaining life.
-/

namespace FourCE.Calculations

open FourCE.Python

/-! ## What is read is a length of time -/

section Parse

variable [Unicode] [Casing]

theorem number_nonneg {text : PyStr} {x : Double} (h : number text = some x) :
    (Double.finite 0).le x = true := by
  unfold number at h
  split at h
  · rw [Option.some.injEq] at h
    rw [← h]
    exact decide_eq_true (Nat.cast_nonneg _)
  · exact floatOf_nonneg h

theorem find_nonneg {key : Quantity} {text : PyStr} {x : Double} (h : find key text = some (some x)) :
    (Double.finite 0).le x = true := by
  unfold find at h
  split at h
  · cases h
  · obtain ⟨y, hy, hxy⟩ := Option.map_eq_some_iff.mp h
    rw [Option.some.injEq] at hxy
    rw [← hxy]
    exact number_nonneg hy

theorem parse_stated {text : PyStr} {rows : List (Survey × Option Double)} {stated : Option Double}
    (h : parse text = some (rows, stated)) : find .maxInterval text = some stated := by
  unfold parse at h
  simp only [Option.bind_eq_bind, Option.bind_eq_some_iff, Option.pure_def] at h
  obtain ⟨interval, hfind, table, -, hrows⟩ := h
  rw [hfind]
  split at hrows
  · obtain ⟨sentence, -, heq⟩ := Option.bind_eq_some_iff.mp hrows
    simp_all
  · obtain ⟨years, -, heq⟩ := Option.bind_eq_some_iff.mp hrows
    simp_all

/-- A code maximum that is stated is zero or positive. -/
theorem stated_pos {text : PyStr} {rows : List (Survey × Option Double)} {t : Double}
    (h : parse text = some (rows, some t)) (ht : t ≠ .finite 0) : (Double.finite 0).lt t = true := by
  have hle := find_nonneg (parse_stated h)
  cases t with
  | finite q =>
    have hq : 0 ≤ q := of_decide_eq_true hle
    exact decide_eq_true (hq.lt_of_ne fun h0 ↦ ht (by rw [h0]))
  | inf neg => exact hle
  | nan => cases hle

end Parse

/-! ## The property -/

/-- A location's next measurement respects every limit there is: the request's, its own, the one
the text states, and half its remaining life. -/
structure WithinLimits (m : Double) (stated : Option Double) (row : Survey × Option Double)
    (result : Result) : Prop where
  request : ∀ next, result.next = some next → next ≠ .nan → next.le m = true
  own : ∀ next, result.next = some next → next ≠ .nan →
    ∀ own, row.2 = some own → (Double.finite 0).lt own = true → next.le own = true
  code : ∀ next, result.next = some next → next ≠ .nan →
    ∀ t, stated = some t → (Double.finite 0).lt t = true → next.le t = true
  half : ∀ next, result.next = some next → next ≠ .nan →
    ∀ life, result.life = some life → life ≠ .nan → next.le (life.div (.finite 2)) = true
  spent : row.1.current.le row.1.required = true → result.next = some (.finite 0)

/-- Half of what is left above the required thickness, over the rate of loss. -/
def Survey.halfLife (row : Survey) : Option Double :=
  row.lost.map fun rate ↦ ((row.current.sub row.required).div rate).div (.finite 2)

/-- Half the remaining life comes before the request's limit and the location's own. -/
def Roomy (m : Double) (row : Survey × Option Double) : Prop :=
  ∀ half, row.1.halfLife = some half → half ≠ .nan → half.le m = true ∧
    ∀ own, row.2 = some own → (Double.finite 0).lt own = true → half.le own = true

/-! ## The interval that applies -/

/-- An interval above zero that exceeds neither the request's nor the one stated. -/
theorem limitFor_tight {default m : Double} {stated : Option Double} {basis : PyStr}
    (hm : (Double.finite 0).lt m = true)
    (hstated : ∀ t, stated = some t → (Double.finite 0).lt t = true) :
    ∃ i, (limitFor default stated m basis).interval = some i ∧ (Double.finite 0).lt i = true ∧
      i.le m = true ∧ ∀ t, stated = some t → i.le t = true := by
  have hmnan := (Double.ne_nan_of_lt hm).2
  unfold limitFor
  simp only [hm, Bool.true_and]
  split
  · rename_i hshort
    refine ⟨m, rfl, hm, Double.le_refl hmnan, fun t ht ↦ ?_⟩
    simp only [ht, statedOr, shortens] at hshort
    exact Double.le_of_lt hshort
  · rename_i hshort
    cases hs : stated with
    | some t =>
      have ht := hstated t hs
      simp only [hs, statedOr, shortens, Bool.not_eq_true] at hshort
      have htnan := (Double.ne_nan_of_lt ht).2
      refine ⟨t, rfl, ht, Double.le_of_not_lt hmnan htnan hshort, fun t' ht' ↦ ?_⟩
      rw [← Option.some.inj ht']
      exact Double.le_refl htnan
    | none =>
      simp only [hs, statedOr] at hshort ⊢
      split at hshort
      · rename_i hdefault
        simp only [hdefault, shortens, if_true, Bool.not_eq_true] at hshort ⊢
        have hnan := (Double.ne_nan_of_lt hdefault).2
        exact ⟨default, rfl, hdefault, Double.le_of_not_lt hmnan hnan hshort, fun t ht ↦ by cases ht⟩
      · exact absurd rfl hshort

/-- A location's own interval is taken when it is shorter. -/
theorem forRow_tight {limit : Limit} {i : Double} (hi : limit.interval = some i)
    (hpos : (Double.finite 0).lt i = true) (basis : PyStr) (own : Option Double) :
    ∃ j, (limit.forRow basis own).interval = some j ∧ (Double.finite 0).lt j = true ∧
      j.le i = true ∧ ∀ o, own = some o → (Double.finite 0).lt o = true → j.le o = true := by
  have hinan := (Double.ne_nan_of_lt hpos).2
  cases own with
  | none => exact ⟨i, hi, hpos, Double.le_refl hinan, fun o ho ↦ by cases ho⟩
  | some o =>
    unfold Limit.forRow
    simp only [hi, shortens]
    split
    · rename_i hshort
      obtain ⟨ho, hlt⟩ := Bool.and_eq_true_iff.mp hshort
      refine ⟨o, rfl, ho, Double.le_of_lt hlt, fun o' ho' _ ↦ ?_⟩
      rw [← Option.some.inj ho']
      exact Double.le_refl (Double.ne_nan_of_lt ho).2
    · rename_i hshort
      refine ⟨i, hi, hpos, Double.le_refl hinan, fun o' ho' hpos' ↦ ?_⟩
      obtain rfl := Option.some.inj ho'
      simp only [hpos', Bool.true_and, Bool.not_eq_true] at hshort
      exact Double.le_of_not_lt (Double.ne_nan_of_lt hpos').2 hinan hshort

/-! ## One location -/

/-- With an interval above zero, the next measurement exceeds neither it nor half the life. -/
theorem next_le_interval {row : Survey} {j next : Double} (hj : (Double.finite 0).lt j = true)
    (hnext : (remainingLife row (some j)).next = some next) (hnan : next ≠ .nan) :
    next.le j = true ∧ ∀ life, (remainingLife row (some j)).life = some life →
      next.le (life.div (.finite 2)) = true ∨ row.current.le row.required = true := by
  have hjnan := (Double.ne_nan_of_lt hj).2
  have hjne : j ≠ .finite 0 := by
    rintro rfl
    exact absurd hj (by decide)
  rcases remainingLife_cases row with hbelow | ⟨habove, hlost⟩ | ⟨rate, hlost⟩
  · rw [remainingLife_atOrBelow hbelow, Option.some.injEq] at hnext
    rw [← hnext]
    exact ⟨Double.le_of_lt hj, fun _ _ ↦ .inr hbelow⟩
  · rw [remainingLife_noLoss habove hlost, Option.some.injEq] at hnext
    rw [← hnext, remainingLife_noLoss habove hlost]
    exact ⟨Double.le_refl hjnan, fun _ h ↦ by cases h⟩
  · rw [remainingLife_fit hlost] at hnext ⊢
    simp only [Option.some.injEq, forall_eq', sooner, hjne, if_false] at hnext ⊢
    generalize hhalf : ((row.current.sub row.required).div rate).div (.finite 2) = half at hnext ⊢
    have hhnan : half ≠ .nan := by
      rintro rfl
      apply hnan
      rw [← hnext]
      cases j <;> rfl
    rw [← hnext]
    exact ⟨Double.min_le_right hhnan hjnan, .inl (Double.min_le_left hhnan)⟩

theorem within_of_tight {m : Double} {stated : Option Double} {row : Survey × Option Double}
    {j : Double} (hj : (Double.finite 0).lt j = true) (hm : j.le m = true)
    (hstated : ∀ t, stated = some t → j.le t = true)
    (hown : ∀ o, row.2 = some o → (Double.finite 0).lt o = true → j.le o = true) :
    WithinLimits m stated row (remainingLife row.1 (some j)) where
  request next hnext hnan := Double.le_trans (next_le_interval hj hnext hnan).1 hm
  own next hnext hnan o ho hpos := Double.le_trans (next_le_interval hj hnext hnan).1 (hown o ho hpos)
  code next hnext hnan t ht _ := Double.le_trans (next_le_interval hj hnext hnan).1 (hstated t ht)
  half next hnext hnan life hlife _ := by
    rcases (next_le_interval hj hnext hnan).2 life hlife with hhalf | hbelow
    · exact hhalf
    · rw [remainingLife_atOrBelow hbelow, Option.some.injEq] at hnext hlife
      rw [← hnext, ← hlife]
      decide +kernel
  spent hbelow := by rw [remainingLife_atOrBelow hbelow]

/-- Under a code maximum of zero only half the remaining life counts. -/
theorem within_zero_iff {m : Double} (hm : (Double.finite 0).lt m = true)
    (row : Survey × Option Double) :
    WithinLimits m (some (.finite 0)) row (remainingLife row.1 (some (.finite 0))) ↔ Roomy m row := by
  have hzero : ∀ t, some (Double.finite 0) = some t → (Double.finite 0).lt t = true → False := by
    intro t ht hpos
    rw [← Option.some.inj ht] at hpos
    exact absurd hpos (by decide)
  rcases remainingLife_cases row.1 with hbelow | ⟨habove, hlost⟩ | ⟨rate, hlost⟩
  · have hlost : row.1.lost = none := by
      unfold Survey.lost
      rw [if_pos hbelow]
    refine ⟨fun _ half hhalf ↦ ?_, fun _ ↦ ?_⟩
    · rw [Survey.halfLife, hlost] at hhalf
      cases hhalf
    · rw [remainingLife_atOrBelow hbelow]
      constructor
      · rintro next ⟨⟩ -
        exact Double.le_of_lt hm
      · rintro next ⟨⟩ - own - hpos
        exact Double.le_of_lt hpos
      · rintro next ⟨⟩ - t ht hpos
        exact (hzero t ht hpos).elim
      · rintro next ⟨⟩ - life ⟨⟩ -
        decide +kernel
      · exact fun _ ↦ rfl
  · refine ⟨fun _ half hhalf ↦ ?_, fun _ ↦ ?_⟩
    · rw [Survey.halfLife, hlost] at hhalf
      cases hhalf
    · rw [remainingLife_noLoss habove hlost]
      constructor
      · rintro next ⟨⟩ -
        exact Double.le_of_lt hm
      · rintro next ⟨⟩ - own - hpos
        exact Double.le_of_lt hpos
      · rintro next ⟨⟩ - t ht hpos
        exact (hzero t ht hpos).elim
      · rintro next - - life ⟨⟩
      · exact fun hbelow ↦ absurd hbelow (by simp [habove])
  · have habove : ¬row.1.current.le row.1.required = true := by
      intro hbelow
      unfold Survey.lost at hlost
      rw [if_pos hbelow] at hlost
      cases hlost
    have hhalf : row.1.halfLife =
        some (((row.1.current.sub row.1.required).div rate).div (.finite 2)) := by
      rw [Survey.halfLife, hlost]
      rfl
    unfold Roomy
    rw [remainingLife_fit hlost, hhalf]
    simp only [sooner, if_true]
    constructor
    · intro h half hh hnan
      exact ⟨h.request half hh hnan, h.own half hh hnan⟩
    · intro h
      constructor
      · exact fun next hnext hnan ↦ (h next hnext hnan).1
      · exact fun next hnext hnan ↦ (h next hnext hnan).2
      · exact fun next _ _ t ht hpos ↦ (hzero t ht hpos).elim
      · rintro next ⟨⟩ hnan life ⟨⟩ -
        exact Double.le_refl hnan
      · exact fun hbelow ↦ absurd hbelow habove

/-- Under a code maximum of zero neither the request's interval nor a location's own is taken. -/
theorem forRow_zero (default m : Double) (basis : PyStr) (hm : (Double.finite 0).lt m = true)
    (own : Option Double) :
    ((limitFor default (some (.finite 0)) m basis).forRow basis own).interval = some (.finite 0) := by
  have hpast {x : Double} (hx : (Double.finite 0).lt x = true) : x.lt (.finite 0) = false := by
    rw [Double.lt_eq_not_le (Double.ne_nan_of_lt hx).2 (by simp), Double.le_of_lt hx]
    rfl
  have hlimit : limitFor default (some (.finite 0)) m basis =
      ⟨some (.finite 0), py "the code maximum"⟩ := by
    unfold limitFor
    simp only [statedOr, shortens, hm, hpast hm, Bool.and_false, Bool.false_eq_true, if_false]
  rw [hlimit]
  cases own with
  | none => rfl
  | some o =>
    have hnever : ((Double.finite 0).lt o && o.lt (.finite 0)) = false := by
      cases hpos : (Double.finite 0).lt o with
      | false => rfl
      | true => exact hpast hpos
    simp only [Limit.forRow, shortens, hnever, Bool.false_eq_true, if_false]

/-! ## Every location -/

section Work

variable [Unicode] [Casing]

theorem workAll_eq {default m : Double} {readings basis : PyStr}
    {rows : List (Survey × Option Double)} {stated : Option Double}
    (hparse : parse readings = some (rows, stated)) :
    workAll default readings m basis = some
      (rows.map (work (limitFor default stated m basis) basis), limitFor default stated m basis) := by
  unfold workAll
  rw [hparse]
  rfl

/-- The next measurement of every location respects every limit, unless the text states a code
maximum of zero: then half of each remaining life has to come before the others. -/
theorem next_within_limits_iff {default m : Double} {readings basis : PyStr}
    {rows : List (Survey × Option Double)} {stated : Option Double} {results : List Worked}
    {limit : Limit} (hm : (Double.finite 0).lt m = true)
    (hparse : parse readings = some (rows, stated))
    (hwork : workAll default readings m basis = some (results, limit)) :
    List.Forall₂ (WithinLimits m stated) rows (results.map Worked.result) ↔
      (stated = some (.finite 0) → ∀ row ∈ rows, Roomy m row) := by
  rw [workAll_eq hparse, Option.some.injEq, Prod.mk.injEq] at hwork
  obtain ⟨rfl, rfl⟩ := hwork
  rw [List.map_map, List.forall₂_map_right_iff, List.forall₂_same]
  by_cases hzero : stated = some (.finite 0)
  · simp only [hzero, true_implies]
    refine forall₂_congr fun row _ ↦ ?_
    simp only [Function.comp_apply, work, forRow_zero default m basis hm]
    exact within_zero_iff hm row
  · refine ⟨fun _ h ↦ absurd h hzero, fun _ row _ ↦ ?_⟩
    have hstated : ∀ t, stated = some t → (Double.finite 0).lt t = true := by
      rintro t rfl
      exact stated_pos hparse fun h ↦ hzero (by rw [h])
    obtain ⟨i, hi, hipos, him, hit⟩ :=
      @limitFor_tight default _ _ basis hm hstated
    obtain ⟨j, hj, hjpos, hji, hjown⟩ := forRow_tight hi hipos basis row.2
    simp only [Function.comp_apply, work, hj]
    exact within_of_tight hjpos (Double.le_trans hji him)
      (fun t ht ↦ Double.le_trans hji (hit t ht)) hjown

end Work

/-! ## A code maximum of zero -/

def zeroMaximum : PyStr :=
  py "prior thickness 9 mm, current thickness 8 mm, required 4 mm, one year ago, max interval 0 years"

def zeroMaximumRow : Survey := ⟨[], .finite 9, .finite 8, .finite 4, .finite 1⟩

theorem parse_zeroMaximum :
    @parse asciiTables asciiCasing zeroMaximum = some ([(zeroMaximumRow, none)], some (.finite 0)) := by
  decide +kernel

theorem workAll_zeroMaximum :
    @workAll asciiTables asciiCasing (.finite 0) zeroMaximum (.finite 1) [] =
      some ([⟨⟨zeroMaximumRow, some (.finite 0), some (.finite 1), some (.finite 4),
        some (.finite 2), .fit⟩, py "the code maximum"⟩], ⟨some (.finite 0), py "the code maximum"⟩) := by
  rw [@workAll_eq asciiTables asciiCasing _ _ _ _ _ _ parse_zeroMaximum]
  decide +kernel

/-- The request's limit of one year is dropped, and the next measurement is due in two. -/
theorem zeroMaximum_unlimited :
    ¬∀ (default m : Double) (readings basis : PyStr) (rows : List (Survey × Option Double))
      (stated : Option Double) (results : List Worked) (limit : Limit),
      (Double.finite 0).lt m = true →
      @parse asciiTables asciiCasing readings = some (rows, stated) →
      @workAll asciiTables asciiCasing default readings m basis = some (results, limit) →
      List.Forall₂ (WithinLimits m stated) rows (results.map Worked.result) := by
  intro h
  have hall := h _ _ _ _ _ _ _ _ (by decide) parse_zeroMaximum workAll_zeroMaximum
  have hrow := (List.forall₂_cons.mp hall).1
  exact absurd (hrow.request _ rfl (by simp)) (by decide)

theorem next_within_limits_iff_zeroMaximum :
    List.Forall₂ (WithinLimits (.finite 1) (some (.finite 0))) [(zeroMaximumRow, none)]
        [⟨zeroMaximumRow, some (.finite 0), some (.finite 1), some (.finite 4), some (.finite 2), .fit⟩] ↔
      (some (Double.finite 0) = some (.finite 0) →
        ∀ row ∈ [(zeroMaximumRow, none)], Roomy (.finite 1) row) :=
  @next_within_limits_iff asciiTables asciiCasing _ _ _ _ _ _ _ _ (by decide) parse_zeroMaximum
    workAll_zeroMaximum

end FourCE.Calculations

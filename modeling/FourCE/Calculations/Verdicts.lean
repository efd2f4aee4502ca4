import FourCE.Calculations.Report

/-!
# What a verdict rests on

A verdict of no measurable loss needs a rate, a verdict of fitness a positive one, and the location
that governs has the smallest remaining life.  The rules fail on readings no time apart, on infinite
ones, and where a remaining life is rounded to zero or to infinity.
-/

namespace FourCE.Calculations

open FourCE.Python

/-! ## Measured locations -/

/-- A number that is not negative. -/
def NotNegative (x : Double) : Prop :=
  x = .inf false ∨ ∃ q, x = .finite q ∧ 0 ≤ q ∧ q ≤ largest

structure Survey.Measured (row : Survey) : Prop where
  previous : NotNegative row.previous
  current : NotNegative row.current
  required : NotNegative row.required
  years : NotNegative row.years

/-- The readings are some time apart, and no infinities cancel. -/
structure Survey.Rated (row : Survey) : Prop where
  apart : row.years ≠ .finite 0
  loss : row.previous = .inf false → row.current ≠ .inf false
  time : row.years = .inf false → row.previous ≠ .inf false ∧ row.current ≠ .inf false

theorem sub_finite {p q : ℚ} (hp : 0 ≤ p) (hp' : p ≤ largest) (hq : 0 ≤ q) (hq' : q ≤ largest) :
    ∃ v, (Double.finite p).sub (.finite q) = .finite v := by
  unfold Double.sub
  apply Double.ofRat_finite
  rw [abs_le]
  constructor <;> linarith

theorem rated_iff {row : Survey} (hrow : row.Measured) :
    row.Rated ↔ ∃ rate, rateOf row = some rate ∧ rate ≠ .nan := by
  obtain ⟨location, previous, current, required, years⟩ := row
  obtain ⟨hprevious, hcurrent, -, hyears⟩ := hrow
  simp only at hprevious hcurrent hyears
  have hrated : Survey.Rated ⟨location, previous, current, required, years⟩ ↔
      years ≠ .finite 0 ∧ (previous = .inf false → current ≠ .inf false) ∧
        (years = .inf false → previous ≠ .inf false ∧ current ≠ .inf false) :=
    ⟨fun h ↦ ⟨h.apart, h.loss, h.time⟩, fun h ↦ ⟨h.1, h.2.1, h.2.2⟩⟩
  rw [hrated]
  unfold rateOf
  rcases hyears with rfl | ⟨t, rfl, -, -⟩
  · rcases hprevious with rfl | ⟨p, rfl, hp, hp'⟩ <;> rcases hcurrent with rfl | ⟨c, rfl, hc, hc'⟩
    · simp [Double.sub, Double.div]
    · simp [Double.sub, Double.div]
    · simp [Double.sub, Double.div]
    · obtain ⟨v, hv⟩ := sub_finite hp hp' hc hc'
      simp [hv, Double.div]
  · by_cases ht : t = 0
    · simp [ht]
    rcases hprevious with rfl | ⟨p, rfl, hp, hp'⟩ <;> rcases hcurrent with rfl | ⟨c, rfl, hc, hc'⟩
    · simp [Double.sub, Double.div]
    · simp [Double.sub, Double.div, ht]
    · simp [Double.sub, Double.div, ht]
    · obtain ⟨v, hv⟩ := sub_finite hp hp' hc hc'
      simp [hv, Double.div, ht, Double.ofRat_ne_nan]

/-! ## Remaining lives -/

/-- At or below the required thickness. -/
def Survey.below (row : Survey) : Bool := row.current.le row.required

/-- What is left above the required thickness, over the rate of loss. -/
def Survey.span (row : Survey) : Option Double :=
  row.lost.map fun rate ↦ (row.current.sub row.required).div rate

theorem lost_pos {row : Survey} {rate : Double} (hlost : row.lost = some rate) (hrate : rate ≠ .nan) :
    row.below = false ∧ rateOf row = some rate ∧ (Double.finite 0).lt rate = true := by
  unfold Survey.lost at hlost
  split at hlost
  · cases hlost
  · rename_i h
    obtain ⟨hrateOf, hpos⟩ := Option.filter_eq_some_iff.mp hlost
    refine ⟨Bool.eq_false_iff.mpr h, hrateOf, ?_⟩
    exact Double.lt_of_not_le hrate (by simp) (by simpa using hpos)

/-- A remaining life is a number that is not negative, when the rate is a number. -/
theorem span_nonneg {row : Survey} (hrow : row.Measured) {rate : Double}
    (hlost : row.lost = some rate) (hrate : rate ≠ .nan) :
    (Double.finite 0).le ((row.current.sub row.required).div rate) = true := by
  obtain ⟨hbelow, hrateOf, hpos⟩ := lost_pos hlost hrate
  obtain ⟨location, previous, current, required, years⟩ := row
  obtain ⟨hprevious, hcurrent, hrequired, hyears⟩ := hrow
  simp only at hprevious hcurrent hrequired hyears
  unfold Survey.below at hbelow
  unfold rateOf at hrateOf
  split at hrateOf
  · cases hrateOf
  rename_i hapart
  simp only [Option.some.injEq] at hrateOf hbelow hapart ⊢
  rcases hcurrent with rfl | ⟨c, rfl, hc, hc'⟩
  · -- an infinite reading leaves no positive rate
    rcases hprevious with rfl | ⟨p, rfl, -, -⟩ <;> rcases hyears with rfl | ⟨t, rfl, ht, -⟩
    · simp [Double.sub, Double.div] at hrateOf
      simp [← hrateOf] at hrate
    · simp [Double.sub, Double.div] at hrateOf
      simp [← hrateOf] at hrate
    · simp [Double.sub, Double.div] at hrateOf
      simp [← hrateOf] at hrate
    · simp [Double.sub, Double.div, not_lt.mpr ht] at hrateOf
      simp [← hrateOf, Double.lt] at hpos
  · rcases hrequired with rfl | ⟨q, rfl, hq, hq'⟩
    · simp [Double.le] at hbelow
    · obtain ⟨v, hv⟩ := sub_finite hc hc' hq hq'
      have hmargin : 0 ≤ v := by
        have hcq : 0 ≤ c - q := by
          have := of_decide_eq_false hbelow
          linarith
        have hle : (Double.finite 0).le ((Double.finite c).sub (.finite q)) = true :=
          Double.ofRat_nonneg hcq
        rw [hv] at hle
        exact of_decide_eq_true hle
      rw [hv]
      cases rate with
      | finite r =>
        have hr : 0 < r := of_decide_eq_true hpos
        exact Double.ofRat_nonneg (div_nonneg hmargin hr.le)
      | inf neg => exact decide_eq_true (le_refl 0)
      | nan => exact absurd rfl hrate

/-! ## The property -/

/-- A location with the interval that applies to it. -/
def workOne (row : Survey × Limit) : Worked := ⟨remainingLife row.1 row.2.interval, row.2.basis⟩

theorem work_eq (limit : Limit) (basis : PyStr) (row : Survey × Option Double) :
    work limit basis row = workOne (row.1, limit.forRow basis row.2) := rfl

/-- What the verdicts and the choice of the governing location say is so. -/
structure Supported (results : List Worked) : Prop where
  noLoss : ∀ w ∈ results, w.result.verdict = .noLoss →
    ∃ rate, w.result.rate = some rate ∧ rate.le (.finite 0) = true
  fit : ∀ w ∈ results, w.result.verdict = .fit →
    w.result.survey.required.lt w.result.survey.current = true ∧
      ∃ rate, w.result.rate = some rate ∧ (Double.finite 0).lt rate = true
  smallest : ∀ g, governing results = some g → ∀ w ∈ results, ∀ life, w.result.life = some life →
    ∃ least, g.result.life = some least ∧ least.le life = true
  spent : ∀ g, governing results = some g →
    ∀ w ∈ results, w.result.verdict = .atOrBelow → g.result.verdict = .atOrBelow

/-- The first location with a remaining life of zero, where one is at or below its required
thickness, is such a one and not one whose life is rounded to zero. -/
def BelowFirst (rows : List Survey) : Prop :=
  ∀ row ∈ rows, row.below = true →
    ∃ first, rows.find? (fun r ↦ r.below || r.span = some (.finite 0)) = some first ∧
      first.below = true

/-- The first location has a remaining life, or no other's is rounded to infinity, or one is finite. -/
def LifeFirst (rows : List Survey) : Prop :=
  ∀ first, rows.head? = some first → first.below = false → first.span = none →
    ∀ row ∈ rows, row.span = some (.inf false) →
      ∃ r ∈ rows, r.below = true ∨ ∃ life, r.span = some life ∧ life ≠ .inf false

/-! ## Results -/

theorem result_below {row : Survey × Limit} (h : row.1.below = true) :
    (workOne row).result.life = some (.finite 0) ∧ (workOne row).result.verdict = .atOrBelow := by
  unfold workOne
  rw [remainingLife_atOrBelow h]
  exact ⟨rfl, rfl⟩

theorem result_above {row : Survey × Limit} (h : row.1.below = false) :
    (workOne row).result.life = row.1.span ∧ (workOne row).result.verdict ≠ .atOrBelow := by
  unfold workOne Survey.span
  cases hlost : row.1.lost with
  | none =>
    rw [remainingLife_noLoss h hlost]
    exact ⟨rfl, by simp⟩
  | some rate =>
    rw [remainingLife_fit hlost]
    exact ⟨rfl, by simp⟩

theorem verdict_atOrBelow {row : Survey × Limit} :
    (workOne row).result.verdict = .atOrBelow ↔ row.1.below = true := by
  cases h : row.1.below with
  | true => simp [(result_below h).2]
  | false => simp [(result_above h).2]

theorem survey_workOne (row : Survey × Limit) : (workOne row).result.survey = row.1 := by
  unfold workOne
  rcases remainingLife_cases row.1 with h | ⟨h, hlost⟩ | ⟨rate, hlost⟩
  · rw [remainingLife_atOrBelow h]
  · rw [remainingLife_noLoss h hlost]
  · rw [remainingLife_fit hlost]

/-! ## One verdict -/

/-- A location's own verdict is supported exactly when its rate is known or not needed. -/
theorem verdict_supported_iff {row : Survey × Limit} (hrow : row.1.Measured) :
    (((workOne row).result.verdict = .noLoss →
        ∃ rate, (workOne row).result.rate = some rate ∧ rate.le (.finite 0) = true) ∧
      ((workOne row).result.verdict = .fit →
        row.1.required.lt row.1.current = true ∧
          ∃ rate, (workOne row).result.rate = some rate ∧ (Double.finite 0).lt rate = true)) ↔
      row.1.below = true ∨ row.1.Rated := by
  cases hbelow : row.1.below with
  | true =>
    rw [(result_below hbelow).2]
    simp
  | false =>
    simp only [Bool.false_eq_true, false_or, rated_iff hrow]
    have habove : row.1.required.lt row.1.current = true := by
      apply Double.lt_of_not_le ?_ ?_ hbelow
      · rcases hrow.current with h | ⟨q, h, -⟩ <;> rw [h] <;> simp
      · rcases hrow.required with h | ⟨q, h, -⟩ <;> rw [h] <;> simp
    unfold workOne
    cases hlost : row.1.lost with
    | none =>
      rw [remainingLife_noLoss hbelow hlost]
      unfold Survey.below at hbelow
      simp only [Survey.lost, hbelow, Bool.false_eq_true, if_false, Option.filter_eq_none_iff] at hlost
      constructor
      · rintro ⟨hnoLoss, -⟩
        obtain ⟨rate, hrate, hle⟩ := hnoLoss rfl
        exact ⟨rate, hrate, (Double.ne_nan_of_le hle).1⟩
      · rintro ⟨rate, hrate, -⟩
        exact ⟨fun _ ↦ ⟨rate, hrate, by simpa using hlost rate hrate⟩, nofun⟩
    | some rate =>
      rw [remainingLife_fit hlost]
      unfold Survey.below at hbelow
      simp only [Survey.lost, hbelow, Bool.false_eq_true, if_false] at hlost
      obtain ⟨hrateOf, hpos⟩ := Option.filter_eq_some_iff.mp hlost
      constructor
      · rintro ⟨-, hfit⟩
        obtain ⟨-, rate', hrate', hlt⟩ := hfit rfl
        obtain rfl := Option.some.inj hrate'
        exact ⟨rate, hrateOf, (Double.ne_nan_of_lt hlt).2⟩
      · rintro ⟨rate', hrate', hnan⟩
        rw [hrateOf] at hrate'
        obtain rfl := Option.some.inj hrate'
        refine ⟨nofun, fun _ ↦ ⟨habove, rate, rfl, ?_⟩⟩
        exact Double.lt_of_not_le hnan (by simp) (by simpa using hpos)

/-! ## The governing location -/

/-- The key of a location: its span, nothing when it is spent, and infinity when it loses none. -/
theorem lifeKey_eq (row : Survey × Limit) :
    lifeKey (workOne row) = if row.1.below then .finite 0 else row.1.span.getD (.inf false) := by
  unfold lifeKey
  cases hbelow : row.1.below with
  | true => rw [(result_below hbelow).1]; rfl
  | false => rw [(result_above hbelow).1]; rfl

section Governing

variable {rows : List (Survey × Limit)} (hmeasured : ∀ row ∈ rows, row.1.Measured)
  (hrated : ∀ row ∈ rows, row.1.below = true ∨ row.1.Rated)

include hmeasured hrated

/-- A remaining life is no negative number. -/
theorem span_number {row : Survey × Limit} (hrow : row ∈ rows) {life : Double}
    (hlife : row.1.span = some life) : (Double.finite 0).le life = true := by
  obtain ⟨rate, hlost, rfl⟩ := Option.map_eq_some_iff.mp hlife
  have habove : row.1.below = false := by
    unfold Survey.lost at hlost
    split at hlost
    · cases hlost
    · exact Bool.eq_false_iff.mpr ‹_›
  rcases hrated row hrow with hbelow | hrate
  · rw [habove] at hbelow
    cases hbelow
  · obtain ⟨rate', hrateOf, hnan⟩ := (rated_iff (hmeasured row hrow)).mp hrate
    have hsame : rateOf row.1 = some rate := by
      unfold Survey.lost at hlost
      split at hlost
      · cases hlost
      · exact (Option.filter_eq_some_iff.mp hlost).1
    rw [hrateOf] at hsame
    obtain rfl := Option.some.inj hsame
    exact span_nonneg (hmeasured row hrow) hlost hnan

theorem lifeKey_nonneg {row : Survey × Limit} (hrow : row ∈ rows) :
    (Double.finite 0).le (lifeKey (workOne row)) = true := by
  rw [lifeKey_eq]
  split
  · exact decide_eq_true (le_refl 0)
  · cases hlife : row.1.span with
    | none => rfl
    | some life => exact span_number hmeasured hrated hrow hlife

/-- The governing location is the first of those with the smallest key. -/
theorem firstLeast_governing {g : Worked} (h : governing (rows.map workOne) = some g) :
    FirstLeast lifeKey g (rows.map workOne) := by
  apply firstLeast_of_minBy h
  intro w hw
  obtain ⟨row, hrow, rfl⟩ := List.mem_map.mp hw
  exact (Double.ne_nan_of_le (lifeKey_nonneg hmeasured hrated hrow)).2

/-- The row of the governing location, and what stands before it. -/
theorem governing_row {g : Worked} (h : governing (rows.map workOne) = some g) :
    ∃ before row after, rows = before ++ row :: after ∧ g = workOne row ∧
      ∀ r ∈ before, (lifeKey g).lt (lifeKey (workOne r)) = true := by
  obtain ⟨before, after, heq, hbefore, -⟩ := firstLeast_governing hmeasured hrated h
  obtain ⟨rowsBefore, rest, rfl, rfl, hrest⟩ := List.map_eq_append_iff.mp heq
  obtain ⟨row, rowsAfter, rfl, rfl, rfl⟩ := List.map_eq_cons_iff.mp hrest
  exact ⟨rowsBefore, row, rowsAfter, rfl, rfl, fun r hr ↦ hbefore _ (List.mem_map_of_mem hr)⟩

/-- A governing location without a life comes first. -/
theorem head_of_lifeless {g : Worked} (h : governing (rows.map workOne) = some g)
    (hkey : lifeKey g = .inf false) : ∃ row rest, rows = row :: rest ∧ g = workOne row := by
  obtain ⟨before, row, after, heq, hg, hbefore⟩ := governing_row hmeasured hrated h
  cases before with
  | nil => exact ⟨row, after, heq, hg⟩
  | cons r before =>
    have hlt := hbefore r List.mem_cons_self
    rw [hkey] at hlt
    cases hr : lifeKey (workOne r) <;> simp [hr, Double.lt] at hlt

theorem lifeKey_governing_le {g : Worked} (h : governing (rows.map workOne) = some g)
    {row : Survey × Limit} (hrow : row ∈ rows) :
    (lifeKey g).le (lifeKey (workOne row)) = true := by
  have hfirst := firstLeast_governing hmeasured hrated h
  obtain ⟨r, hr, rfl⟩ := List.mem_map.mp hfirst.mem
  exact hfirst.le (Double.ne_nan_of_le (lifeKey_nonneg hmeasured hrated hr)).2
    (List.mem_map_of_mem hrow)

omit hmeasured hrated in
theorem inf_of_inf_le {x : Double} (h : (Double.inf false).le x = true) : x = .inf false := by
  cases x <;> simp_all [Double.le]

omit hmeasured hrated in
/-- Without spent locations and finite lives every key is infinite. -/
theorem lifeKey_inf {row : Survey × Limit} (hbelow : row.1.below = false)
    (hspan : ∀ life, row.1.span = some life → life = .inf false) :
    lifeKey (workOne row) = .inf false := by
  rw [lifeKey_eq, if_neg (by simp [hbelow])]
  cases hlife : row.1.span with
  | none => rfl
  | some life => exact hspan life hlife

/-- The governing location has the smallest life, where any has one, exactly when the first location
has one or there is a finite one. -/
theorem smallest_iff :
    (∀ g, governing (rows.map workOne) = some g → ∀ w ∈ rows.map workOne, ∀ life,
        w.result.life = some life → ∃ least, g.result.life = some least ∧ least.le life = true) ↔
      LifeFirst (rows.map Prod.fst) := by
  constructor
  · intro h first hfirst hbelow hspan endless hendless hinf
    by_contra hnone
    have hall : ∀ row ∈ rows, lifeKey (workOne row) = .inf false := by
      intro row hrow
      apply lifeKey_inf
      · rw [← Bool.not_eq_true]
        exact fun hb ↦ hnone ⟨row.1, List.mem_map_of_mem hrow, .inl hb⟩
      · intro life hlife
        by_contra hne
        exact hnone ⟨row.1, List.mem_map_of_mem hrow, .inr ⟨life, hlife, hne⟩⟩
    obtain ⟨row, hrow, rfl⟩ := List.mem_map.mp hendless
    obtain ⟨g, hg⟩ : ∃ g, governing (rows.map workOne) = some g := by
      cases rows with
      | nil => cases hrow
      | cons r rs => exact ⟨_, rfl⟩
    obtain ⟨g', hg', rfl⟩ := List.mem_map.mp (firstLeast_governing hmeasured hrated hg).mem
    obtain ⟨head, rest, hhead, hsame⟩ := head_of_lifeless hmeasured hrated hg (hall g' hg')
    have hfirst' : first = head.1 := by simpa [hhead] using hfirst.symm
    have habove : row.1.below = false := by
      rw [← Bool.not_eq_true]
      exact fun hb ↦ hnone ⟨row.1, hendless, .inl hb⟩
    obtain ⟨least, hleast, -⟩ := h _ hg _ (List.mem_map_of_mem hrow) (.inf false)
      (by rw [(result_above habove).1, hinf])
    rw [hsame, (result_above (hfirst' ▸ hbelow)).1, ← hfirst', hspan] at hleast
    cases hleast
  · intro h g hg w hw life hlife
    obtain ⟨row, hrow, rfl⟩ := List.mem_map.mp hw
    have hkey : lifeKey (workOne row) = life := by rw [lifeKey, hlife]; rfl
    have hle := lifeKey_governing_le hmeasured hrated hg hrow
    rw [hkey] at hle
    cases hleast : g.result.life with
    | some least =>
      rw [lifeKey, hleast] at hle
      exact ⟨least, rfl, hle⟩
    | none =>
      -- then every life is infinite, and the first location has none
      exfalso
      have hginf : lifeKey g = .inf false := by rw [lifeKey, hleast]; rfl
      obtain ⟨head, rest, hhead, hsame⟩ := head_of_lifeless hmeasured hrated hg hginf
      rw [hsame] at hleast
      have hheadAbove : head.1.below = false := by
        rw [← Bool.not_eq_true]
        intro hb
        rw [(result_below hb).1] at hleast
        cases hleast
      rw [(result_above hheadAbove).1] at hleast
      rw [hginf] at hle
      have hlifeInf := inf_of_inf_le hle
      have habove : row.1.below = false := by
        rw [← Bool.not_eq_true]
        intro hb
        rw [(result_below hb).1, hlifeInf] at hlife
        cases hlife
      rw [(result_above habove).1, hlifeInf] at hlife
      obtain ⟨r, hr, hfinite⟩ := h head.1 (by rw [hhead]; rfl) hheadAbove hleast row.1
        (List.mem_map_of_mem hrow) hlife
      obtain ⟨s, hs, rfl⟩ := List.mem_map.mp hr
      have hrle := lifeKey_governing_le hmeasured hrated hg hs
      rw [hginf] at hrle
      have hrinf := inf_of_inf_le hrle
      rw [lifeKey_eq] at hrinf
      rcases hfinite with hb | ⟨l, hl, hne⟩
      · rw [if_pos hb] at hrinf
        cases hrinf
      · split at hrinf
        · cases hrinf
        · rw [hl] at hrinf
          exact hne hrinf

omit hmeasured hrated in
theorem lifeKey_zero_iff (row : Survey × Limit) :
    lifeKey (workOne row) = .finite 0 ↔ (row.1.below || row.1.span = some (.finite 0)) = true := by
  rw [lifeKey_eq]
  cases hbelow : row.1.below with
  | true => simp
  | false => cases row.1.span <;> simp

/-- A location at or below its required thickness governs, where there is one, exactly when none
whose life is rounded to zero comes before. -/
theorem spent_iff :
    (∀ g, governing (rows.map workOne) = some g → ∀ w ∈ rows.map workOne,
        w.result.verdict = .atOrBelow → g.result.verdict = .atOrBelow) ↔
      BelowFirst (rows.map Prod.fst) := by
  -- where a location is at or below, the governing one is the first with a life of zero
  have hfind {g : Worked} (hg : governing (rows.map workOne) = some g) {row : Survey × Limit}
      (hrow : row ∈ rows) (hbelow : row.1.below = true) :
      ∃ r, g = workOne r ∧
        (rows.map Prod.fst).find? (fun r ↦ r.below || r.span = some (.finite 0)) = some r.1 := by
    obtain ⟨before, r, after, heq, hr, hbefore⟩ := governing_row hmeasured hrated hg
    have hzero : lifeKey g = .finite 0 := by
      have hle := lifeKey_governing_le hmeasured hrated hg hrow
      rw [lifeKey_eq row, if_pos hbelow] at hle
      have hnonneg := @lifeKey_nonneg _ hmeasured hrated r (by simp [heq])
      rw [← hr] at hnonneg
      cases hk : lifeKey g with
      | finite q =>
        rw [hk] at hle hnonneg
        rw [le_antisymm (of_decide_eq_true hle) (of_decide_eq_true hnonneg)]
      | inf neg => cases neg <;> simp [hk, Double.le] at hle hnonneg
      | nan => simp [hk, Double.le] at hle
    refine ⟨r, hr, ?_⟩
    rw [heq, List.map_append, List.find?_append, List.find?_eq_none.mpr, Option.none_or,
      List.map_cons, List.find?_cons_of_pos]
    · rw [← lifeKey_zero_iff, ← hr, hzero]
    · intro x hx hzero'
      obtain ⟨y, hy, rfl⟩ := List.mem_map.mp hx
      have hlt := hbefore y hy
      rw [hzero, (lifeKey_zero_iff y).mpr hzero'] at hlt
      exact absurd hlt (by decide)
  constructor
  · intro h x hx hbelow
    obtain ⟨row, hrow, rfl⟩ := List.mem_map.mp hx
    obtain ⟨g, hg⟩ : ∃ g, governing (rows.map workOne) = some g := by
      cases rows with
      | nil => cases hrow
      | cons r rs => exact ⟨_, rfl⟩
    obtain ⟨r, rfl, hfound⟩ := hfind hg hrow hbelow
    exact ⟨r.1, hfound, verdict_atOrBelow.mp
      (h _ hg _ (List.mem_map_of_mem hrow) (verdict_atOrBelow.mpr hbelow))⟩
  · intro h g hg w hw hverdict
    obtain ⟨row, hrow, rfl⟩ := List.mem_map.mp hw
    have hbelow := verdict_atOrBelow.mp hverdict
    obtain ⟨r, rfl, hfound⟩ := hfind hg hrow hbelow
    obtain ⟨first, hfirst, hfirstBelow⟩ := h row.1 (List.mem_map_of_mem hrow) hbelow
    rw [hfound] at hfirst
    obtain rfl := Option.some.inj hfirst
    exact verdict_atOrBelow.mpr hfirstBelow

end Governing

/-! ## Every survey -/

/-- The verdicts and the governing location of a survey are supported by its readings exactly when
every location above its required thickness has readings some time apart, none of them infinite in
a way that cancels, and rounding a life to zero or to infinity does not put it before another. -/
theorem verdicts_supported_iff {rows : List (Survey × Limit)}
    (hmeasured : ∀ row ∈ rows, row.1.Measured) :
    Supported (rows.map workOne) ↔
      (∀ row ∈ rows, row.1.below = true ∨ row.1.Rated) ∧ BelowFirst (rows.map Prod.fst) ∧
        LifeFirst (rows.map Prod.fst) := by
  constructor
  · intro h
    have hrated : ∀ row ∈ rows, row.1.below = true ∨ row.1.Rated := by
      intro row hrow
      have hmem : workOne row ∈ rows.map workOne := List.mem_map_of_mem hrow
      refine (verdict_supported_iff (hmeasured row hrow)).mp ⟨h.noLoss _ hmem, fun hfit ↦ ?_⟩
      simpa [survey_workOne] using h.fit _ hmem hfit
    exact ⟨hrated, (spent_iff hmeasured hrated).mp h.spent,
      (smallest_iff hmeasured hrated).mp h.smallest⟩
  · rintro ⟨hrated, hspent, hsmallest⟩
    have hverdict {row : Survey × Limit} (hrow : row ∈ rows) :=
      (verdict_supported_iff (hmeasured row hrow)).mpr (hrated row hrow)
    constructor
    · intro w hw
      obtain ⟨row, hrow, rfl⟩ := List.mem_map.mp hw
      exact (hverdict hrow).1
    · intro w hw
      obtain ⟨row, hrow, rfl⟩ := List.mem_map.mp hw
      rw [survey_workOne]
      exact (hverdict hrow).2
    · exact (smallest_iff hmeasured hrated).mpr hsmallest
    · exact (spent_iff hmeasured hrated).mpr hspent

/-! ## Readings no time apart -/

/-- Twelve millimetres and eleven, measured at once. -/
def atOnce : Survey × Limit :=
  (⟨py "N1", .finite 12, .finite 11, .finite 9, .finite 0⟩, ⟨none, py "the code maximum"⟩)

theorem measured_atOnce : ∀ row ∈ [atOnce], row.1.Measured := by
  have hreading {q : ℚ} (hq : 0 ≤ q) (hq' : q ≤ 12) : NotNegative (.finite q) := by
    have hlargest : (12 : ℚ) ≤ largest := by decide +kernel
    exact .inr ⟨q, rfl, hq, hq'.trans hlargest⟩
  intro row hrow
  obtain rfl := List.mem_singleton.mp hrow
  exact ⟨hreading (by norm_num) (by norm_num), hreading (by norm_num) (by norm_num),
    hreading (by norm_num) (by norm_num), hreading (by norm_num) (by norm_num)⟩

/-- No rate can be calculated, and no measurable loss is reported. -/
theorem atOnce_unsupported :
    ¬∀ rows : List (Survey × Limit), (∀ row ∈ rows, row.1.Measured) →
      Supported (rows.map workOne) := by
  intro h
  obtain ⟨rate, hrate, -⟩ := (h [atOnce] measured_atOnce).noLoss (workOne atOnce)
    (List.mem_map_of_mem (List.mem_singleton_self atOnce)) (by decide)
  have hnone : (workOne atOnce).result.rate = none := by decide
  rw [hnone] at hrate
  cases hrate

theorem verdicts_supported_iff_atOnce :
    Supported ([atOnce].map workOne) ↔
      (∀ row ∈ [atOnce], row.1.below = true ∨ row.1.Rated) ∧
        BelowFirst ([atOnce].map Prod.fst) ∧ LifeFirst ([atOnce].map Prod.fst) :=
  verdicts_supported_iff measured_atOnce

end FourCE.Calculations

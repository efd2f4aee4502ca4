import FourCE.Calibration.Spacing
import FourCE.Library.RegexTemplate
import FourCE.Tools.References

/-!
# Dates as they are written

`parse_date` reads a date in four shapes, each of them a few stretches of digits, letters, marks and
blanks from one end of the text to the other.  A text has one shape at most and is cut in one way, so
what is read is what was written; where the day cannot be a month, the day and the month may also stand
in the order of the other convention.
-/

namespace FourCE.Calibration

open FourCE.Library.Regex FourCE.Python FourCE.Tools

/-! ## The four patterns -/

/-- What stands between the numbers: a hyphen, a slash or a point. -/
def markClass : CharClass := ⟨false, [.one 45, .one 47, .one 46], false⟩

/-- `[A-Za-z]`. -/
def letterClass : CharClass := ⟨false, [.range 65 90, .range 97 122], false⟩

/-- `^…$` around stretches. -/
def whole (ps : List (Stretch CharClass)) : Pattern :=
  .seq (.test .textStart) (template ps (.seq (.test .textEnd) .eps))

def digitStretch (least most group : ℕ) : Stretch CharClass :=
  ⟨digitClass, some (least, some most), some group⟩

def markStretch : Stretch CharClass := ⟨markClass, none, none⟩

def gapStretch : Stretch CharClass := ⟨whiteClass, some (1, none), none⟩

def letterStretch (group : ℕ) : Stretch CharClass := ⟨letterClass, some (1, none), some group⟩

/-- `\.?`. -/
def dotStretch : Stretch CharClass := ⟨one 46, some (0, some 1), none⟩

/-- Three numbers with marks between them. -/
def markedParts (least most least' most' : ℕ) : List (Stretch CharClass) :=
  [digitStretch least most 1, markStretch, digitStretch 1 2 2, markStretch, digitStretch least' most' 3]

def dayNameParts : List (Stretch CharClass) :=
  [digitStretch 1 2 1, gapStretch, letterStretch 2, dotStretch, gapStretch, digitStretch 4 4 3]

def nameDayParts : List (Stretch CharClass) :=
  [letterStretch 1, dotStretch, gapStretch, digitStretch 1 2 2, gapStretch, digitStretch 4 4 3]

theorem isoDate_eq : isoDate = whole (markedParts 4 4 1 2) := by
  rw [isoDate, re]
  decide

theorem numericDate_eq : numericDate = whole (markedParts 1 2 2 4) := by
  rw [numericDate, re]
  decide

theorem dayNameDate_eq : dayNameDate = whole dayNameParts := by
  rw [dayNameDate, re]
  decide

theorem nameDayDate_eq : nameDayDate = whole nameDayParts := by
  rw [nameDayDate, re]
  decide

/-! ## Reading from end to end -/

section

variable [Unicode]

theorem reMatch_whole {ps : List (Stretch CharClass)} {value : PyStr} (hline : (10 : CodePoint) ∉ value)
    {m : Match} (h : reMatch (whole ps) value = some m) :
    ∃ us, List.Forall₂ (Stretch.Reads sre) ps us ∧ value = us.flatten ∧
      m.found.stop.groups = captured ps us := by
  obtain ⟨found, hfound, rfl⟩ := Option.map_eq_some_iff.mp h
  rw [matchAt_eq] at hfound
  obtain ⟨t, ht, rfl⟩ := Option.map_eq_some_iff.mp hfound
  obtain ⟨v, hv, ht⟩ := mem_run_seq.mp (List.mem_of_head? ht)
  obtain ⟨-, rfl⟩ := mem_run_test.mp hv
  obtain ⟨us, rest, hus, hafter, ht⟩ := mem_run_template.mp ht
  obtain ⟨w, hw, ht⟩ := mem_run_seq.mp ht
  obtain ⟨hend, rfl⟩ := mem_run_test.mp hw
  obtain rfl := mem_run_eps.mp ht
  have hrest : rest = [] := by
    have hends : (rest.isEmpty || rest == [10]) = true := hend
    rw [Bool.or_eq_true, List.isEmpty_iff, beq_iff_eq] at hends
    refine hends.resolve_right fun h10 ↦ hline ?_
    have hvalue : value = us.flatten ++ rest := hafter
    rw [hvalue, h10]
    exact List.mem_append_right _ List.mem_cons_self
  have hvalue : value = us.flatten ++ rest := hafter
  rw [hrest, List.append_nil] at hvalue
  exact ⟨us, hus, hvalue, List.append_nil _⟩

theorem exists_reMatch_whole {ps : List (Stretch CharClass)} {us : List PyStr}
    (hus : List.Forall₂ (Stretch.Reads sre) ps us) : ∃ m, reMatch (whole ps) us.flatten = some m := by
  cases hm : reMatch (whole ps) us.flatten with
  | some m => exact ⟨m, rfl⟩
  | none =>
    rw [reMatch, Option.map_eq_none_iff, matchAt_eq, Option.map_eq_none_iff, first_eq_none_iff] at hm
    have hmem : (⟨us.flatten.reverse, [], captured ps us⟩ : State CodePoint) ∈
        run sre (whole ps) ⟨[], us.flatten, []⟩ := by
      refine mem_run_seq.mpr ⟨_, mem_run_test.mpr ⟨rfl, rfl⟩, mem_run_template.mpr
        ⟨us, [], hus, (List.append_nil _).symm, mem_run_seq.mpr ⟨_, mem_run_test.mpr ⟨rfl, rfl⟩, ?_⟩⟩⟩
      rw [mem_run_eps, List.append_nil, List.append_nil]
    rw [hm] at hmem
    cases hmem

/-- A character of a text whose white space has been squeezed. -/
def Plainly (c : CodePoint) : Prop := isWhite c = false ∨ c = 32

theorem markClass_accepts (x : CodePoint) : sre.accepts markClass x = true ↔ x = 45 ∨ x = 47 ∨ x = 46 := by
  simp [sre, markClass, CharClass.accepts, Item.accepts]

theorem letterClass_accepts (x : CodePoint) :
    sre.accepts letterClass x = true ↔ 65 ≤ x ∧ x ≤ 90 ∨ 97 ≤ x ∧ x ≤ 122 := by
  simp [sre, letterClass, CharClass.accepts, Item.accepts]

theorem plainly_blank {x : CodePoint} (hx : Plainly x) (h : sre.accepts whiteClass x = true) : x = 32 := by
  rw [whiteClass_accepts] at h
  exact hx.resolve_left (by simp [h])

/-- The classes that stand next to each other in the four shapes. -/
def besides : List (CharClass × CharClass) :=
  [(digitClass, markClass), (markClass, digitClass), (digitClass, whiteClass), (whiteClass, digitClass),
    (whiteClass, letterClass), (letterClass, one 46), (letterClass, whiteClass), (one 46, whiteClass)]

theorem accepts_of_besides (c d : CharClass) (x : CodePoint) (hx : Plainly x)
    (h : decide ((c, d) ∈ besides) = true) (hd : sre.accepts d x = true) : sre.accepts c x = false := by
  have hdigit : sre.accepts digitClass x = true → 128 ≤ x.val ∨ 48 ≤ x.val ∧ x.val ≤ 57 := by
    intro hdigits
    rw [digitClass_accepts] at hdigits
    exact (Nat.lt_or_ge x.val 128).symm.imp_right fun hascii ↦ (isDigit_ascii hascii).mp hdigits
  have hmark : sre.accepts markClass x = true → x.val = 45 ∨ x.val = 46 ∨ x.val = 47 := by
    rw [markClass_accepts]
    rintro (rfl | rfl | rfl) <;> decide
  have hletter : sre.accepts letterClass x = true → 65 ≤ x.val ∧ x.val ≤ 122 := by
    rw [letterClass_accepts]
    simp only [Fin.le_def]
    have h65 : (65 : CodePoint).val = 65 := rfl
    have h90 : (90 : CodePoint).val = 90 := rfl
    have h97 : (97 : CodePoint).val = 97 := rfl
    have h122 : (122 : CodePoint).val = 122 := rfl
    omega
  have hblank : sre.accepts whiteClass x = true → x.val = 32 := fun hwhite ↦ by
    rw [plainly_blank hx hwhite]
    rfl
  have hdot : sre.accepts (one 46) x = true → x.val = 46 := fun hone ↦ by
    rw [(one_accepts 46 x).mp hone]
    rfl
  rw [Bool.eq_false_iff]
  intro hc
  simp only [besides, List.mem_cons, List.not_mem_nil, or_false, Prod.mk.injEq, decide_eq_true_eq] at h
  rcases h with ⟨rfl, rfl⟩ | ⟨rfl, rfl⟩ | ⟨rfl, rfl⟩ | ⟨rfl, rfl⟩ | ⟨rfl, rfl⟩ | ⟨rfl, rfl⟩ | ⟨rfl, rfl⟩ |
    ⟨rfl, rfl⟩
  · have := hdigit hc; have := hmark hd; omega
  · have := hmark hc; have := hdigit hd; omega
  · have := hdigit hc; have := hblank hd; omega
  · have := hblank hc; have := hdigit hd; omega
  · have := hblank hc; have := hletter hd; omega
  · have := hletter hc; have := hdot hd; omega
  · have := hletter hc; have := hblank hd; omega
  · have := hdot hc; have := hblank hd; omega

/-- What the groups of a pattern capture of a text made of its stretches. -/
theorem reMatch_flatten {ps : List (Stretch CharClass)} (hps : Separate (fun c d ↦ (c, d) ∈ besides) ps = true)
    {us : List PyStr} (hus : List.Forall₂ (Stretch.Reads sre) ps us) (hok : ∀ c ∈ us.flatten, Plainly c) :
    ∃ m, reMatch (whole ps) us.flatten = some m ∧ m.found.stop.groups = captured ps us := by
  obtain ⟨m, hm⟩ := exists_reMatch_whole hus
  have hline : (10 : CodePoint) ∉ us.flatten := fun h10 ↦ by
    have hplain := hok 10 h10
    revert hplain
    unfold Plainly
    decide
  obtain ⟨vs, hvs, hflat, hgroups⟩ := reMatch_whole hline hm
  obtain rfl := cut_unique accepts_of_besides hps hus hvs hflat hok
  exact ⟨m, hm, hgroups⟩

/-! ## The four shapes -/

/-- Digits, as many as this. -/
structure Figures (least most : ℕ) (s : PyStr) : Prop where
  all : ∀ c ∈ s, isDigit c = true
  least : least ≤ s.length
  most : s.length ≤ most

def IsMark (c : CodePoint) : Prop := c = 45 ∨ c = 47 ∨ c = 46

def IsLetter (c : CodePoint) : Prop := 65 ≤ c ∧ c ≤ 90 ∨ 97 ≤ c ∧ c ≤ 122

/-- White space, some of it. -/
structure Gap (s : PyStr) : Prop where
  white : White s
  ne_nil : s ≠ []

/-- Letters, at least one, and perhaps a point behind them. -/
inductive Abbreviated (name : PyStr) : PyStr → Prop
  | plain (hne : name ≠ []) (hall : ∀ c ∈ name, IsLetter c) : Abbreviated name name
  | point (hne : name ≠ []) (hall : ∀ c ∈ name, IsLetter c) : Abbreviated name (name ++ [46])

/-- Three numbers with marks between them. -/
inductive Marked (least most least' most' : ℕ) (u v w : PyStr) : PyStr → Prop
  | intro {a b : CodePoint} (hu : Figures least most u) (ha : IsMark a) (hv : Figures 1 2 v) (hb : IsMark b)
      (hw : Figures least' most' w) : Marked least most least' most' u v w (u ++ a :: (v ++ b :: w))

/-- A day, the name of a month and a year. -/
inductive DayName (day name year : PyStr) : PyStr → Prop
  | intro {g n g' : PyStr} (hday : Figures 1 2 day) (hg : Gap g) (hn : Abbreviated name n) (hg' : Gap g')
      (hyear : Figures 4 4 year) : DayName day name year (day ++ (g ++ (n ++ (g' ++ year))))

/-- The name of a month, a day and a year. -/
inductive NameDay (name day year : PyStr) : PyStr → Prop
  | intro {g n g' : PyStr} (hn : Abbreviated name n) (hg : Gap g) (hday : Figures 1 2 day) (hg' : Gap g')
      (hyear : Figures 4 4 year) : NameDay name day year (n ++ (g ++ (day ++ (g' ++ year))))

theorem reads_digitStretch {least most group : ℕ} {u : PyStr} :
    (digitStretch least most group).Reads sre u ↔ Figures least most u := by
  constructor
  · intro hu
    exact ⟨fun c hc ↦ (digitClass_accepts c).symm.trans (hu.all c hc), hu.least, hu.most most rfl⟩
  · intro hu
    refine ⟨fun c hc ↦ (digitClass_accepts c).trans (hu.all c hc), hu.least, fun k hk ↦ ?_⟩
    rw [← Option.some.inj hk]
    exact hu.most

theorem reads_markStretch {u : PyStr} : markStretch.Reads sre u ↔ ∃ a, u = [a] ∧ IsMark a := by
  constructor
  · intro hu
    obtain ⟨a, rfl⟩ := List.length_eq_one_iff.mp (le_antisymm (hu.most 1 rfl) hu.least)
    exact ⟨a, rfl, (markClass_accepts a).mp (hu.all a List.mem_cons_self)⟩
  · rintro ⟨a, rfl, ha⟩
    exact ⟨List.forall_mem_singleton.mpr ((markClass_accepts a).mpr ha), le_rfl,
      fun k hk ↦ by rw [← Option.some.inj hk]; rfl⟩

theorem reads_gapStretch {u : PyStr} : gapStretch.Reads sre u ↔ Gap u := by
  constructor
  · intro hu
    exact ⟨fun c hc ↦ (whiteClass_accepts c).symm.trans (hu.all c hc), List.length_pos_iff.mp hu.least⟩
  · intro hu
    exact ⟨fun c hc ↦ (whiteClass_accepts c).trans (hu.white c hc), List.length_pos_iff.mpr hu.ne_nil, nofun⟩

theorem reads_name {group : ℕ} {u v : PyStr} :
    (letterStretch group).Reads sre u ∧ dotStretch.Reads sre v ↔ Abbreviated u (u ++ v) := by
  constructor
  · rintro ⟨hu, hv⟩
    have hne : u ≠ [] := List.length_pos_iff.mp hu.least
    have hall : ∀ c ∈ u, IsLetter c := fun c hc ↦ (letterClass_accepts c).mp (hu.all c hc)
    rcases v with _ | ⟨c, v⟩
    · rw [List.append_nil]
      exact .plain hne hall
    · obtain rfl : v = [] := by
        have := hv.most 1 rfl
        rw [List.length_cons] at this
        exact List.eq_nil_of_length_eq_zero (by omega)
      rw [(one_accepts 46 c).mp (hv.all c List.mem_cons_self)]
      exact .point hne hall
  · intro h
    have hletters : u ≠ [] → (∀ c ∈ u, IsLetter c) → (letterStretch group).Reads sre u := fun hne hall ↦
      ⟨fun c hc ↦ (letterClass_accepts c).mpr (hall c hc), List.length_pos_iff.mpr hne, nofun⟩
    generalize hw : u ++ v = w at h
    cases h with
    | plain hne hall =>
      obtain rfl := List.append_right_eq_self.mp hw
      exact ⟨hletters hne hall, nofun, le_rfl, fun k _ ↦ Nat.zero_le k⟩
    | point hne hall =>
      obtain rfl := List.append_cancel_left hw
      refine ⟨hletters hne hall, List.forall_mem_singleton.mpr ((one_accepts 46 46).mpr rfl), Nat.zero_le 1,
        fun k hk ↦ ?_⟩
      rw [← Option.some.inj hk]
      rfl

theorem groupText_of_captured {ps : List (Stretch CharClass)} {us : List PyStr} {m : Match}
    (h : m.found.stop.groups = captured ps us) (n : ℕ) :
    groupText m n = (((captured ps us).find? fun g ↦ g.1 = n).map Prod.snd).getD [] := by
  rw [groupText, Match.group, Found.group, h]

section Marked

variable {least most least' most' : ℕ}

theorem marked_of_reMatch {value : PyStr} (hline : (10 : CodePoint) ∉ value) {m : Match}
    (h : reMatch (whole (markedParts least most least' most')) value = some m) :
    Marked least most least' most' (groupText m 1) (groupText m 2) (groupText m 3) value := by
  obtain ⟨us, hus, rfl, hgroups⟩ := reMatch_whole hline h
  simp only [markedParts, List.forall₂_cons_left_iff, List.forall₂_nil_left_iff] at hus
  obtain ⟨u, _, hu, ⟨_, _, hmark, ⟨v, _, hv, ⟨_, _, hmark', ⟨w, _, hw, rfl, rfl⟩, rfl⟩, rfl⟩, rfl⟩, rfl⟩ := hus
  obtain ⟨a, rfl, ha⟩ := reads_markStretch.mp hmark
  obtain ⟨b, rfl, hb⟩ := reads_markStretch.mp hmark'
  have hmarked := Marked.intro (reads_digitStretch.mp hu) ha (reads_digitStretch.mp hv) hb
    (reads_digitStretch.mp hw)
  rw [groupText_of_captured hgroups, groupText_of_captured hgroups, groupText_of_captured hgroups]
  simpa [markedParts, captured, Stretch.captures, digitStretch, markStretch] using hmarked

theorem reMatch_of_marked {u v w value : PyStr} (h : Marked least most least' most' u v w value)
    (hok : ∀ c ∈ value, Plainly c) :
    ∃ m, reMatch (whole (markedParts least most least' most')) value = some m ∧
      groupText m 1 = u ∧ groupText m 2 = v ∧ groupText m 3 = w := by
  obtain @⟨a, b, hu, ha, hv, hb, hw⟩ := h
  have hflat : u ++ a :: (v ++ b :: w) = [u, [a], v, [b], w].flatten := by simp
  rw [hflat] at hok ⊢
  have hus : List.Forall₂ (Stretch.Reads sre) (markedParts least most least' most') [u, [a], v, [b], w] :=
    .cons (reads_digitStretch.mpr hu) (.cons (reads_markStretch.mpr ⟨a, rfl, ha⟩)
      (.cons (reads_digitStretch.mpr hv) (.cons (reads_markStretch.mpr ⟨b, rfl, hb⟩)
        (.cons (reads_digitStretch.mpr hw) .nil))))
  have hsep : Separate (fun c d ↦ (c, d) ∈ besides) (markedParts least most least' most') = true := by
    have hlast : heads [digitStretch least' most' 3] = [digitClass] := by
      rw [heads]
      split_ifs <;> rfl
    simp only [markedParts, Separate, hlast]
    rfl
  obtain ⟨m, hm, hgroups⟩ := reMatch_flatten hsep hus hok
  refine ⟨m, hm, ?_, ?_, ?_⟩ <;> rw [groupText_of_captured hgroups] <;>
    simp [markedParts, captured, Stretch.captures, digitStretch, markStretch]

end Marked

theorem dayName_of_reMatch {value : PyStr} (hline : (10 : CodePoint) ∉ value) {m : Match}
    (h : reMatch (whole dayNameParts) value = some m) :
    DayName (groupText m 1) (groupText m 2) (groupText m 3) value := by
  obtain ⟨us, hus, rfl, hgroups⟩ := reMatch_whole hline h
  simp only [dayNameParts, List.forall₂_cons_left_iff, List.forall₂_nil_left_iff] at hus
  obtain ⟨d, _, hd, ⟨g, _, hg, ⟨n, _, hn, ⟨p, _, hp, ⟨g', _, hg', ⟨y, _, hy, rfl, rfl⟩, rfl⟩, rfl⟩, rfl⟩,
    rfl⟩, rfl⟩ := hus
  have hshape := DayName.intro (reads_digitStretch.mp hd) (reads_gapStretch.mp hg) (reads_name.mp ⟨hn, hp⟩)
    (reads_gapStretch.mp hg') (reads_digitStretch.mp hy)
  rw [groupText_of_captured hgroups, groupText_of_captured hgroups, groupText_of_captured hgroups]
  simpa [dayNameParts, captured, Stretch.captures, digitStretch, gapStretch, letterStretch, dotStretch] using hshape

theorem reMatch_of_dayName {day name year value : PyStr} (h : DayName day name year value)
    (hok : ∀ c ∈ value, Plainly c) :
    ∃ m, reMatch (whole dayNameParts) value = some m ∧
      groupText m 1 = day ∧ groupText m 2 = name ∧ groupText m 3 = year := by
  obtain @⟨g, n, g', hd, hg, hn, hg', hy⟩ := h
  obtain ⟨p, rfl⟩ : ∃ p, n = name ++ p := by
    cases hn
    · exact ⟨[], (List.append_nil _).symm⟩
    · exact ⟨_, rfl⟩
  obtain ⟨hname, hp⟩ := (@reads_name _ 2 _ _).mpr hn
  have hflat : day ++ (g ++ ((name ++ p) ++ (g' ++ year))) = [day, g, name, p, g', year].flatten := by simp
  rw [hflat] at hok ⊢
  have hus : List.Forall₂ (Stretch.Reads sre) dayNameParts [day, g, name, p, g', year] :=
    .cons (reads_digitStretch.mpr hd) (.cons (reads_gapStretch.mpr hg) (.cons hname (.cons hp
      (.cons (reads_gapStretch.mpr hg') (.cons (reads_digitStretch.mpr hy) .nil)))))
  obtain ⟨m, hm, hgroups⟩ := reMatch_flatten (by decide) hus hok
  refine ⟨m, hm, ?_, ?_, ?_⟩ <;> rw [groupText_of_captured hgroups] <;>
    simp [dayNameParts, captured, Stretch.captures, digitStretch, gapStretch, letterStretch, dotStretch]

theorem nameDay_of_reMatch {value : PyStr} (hline : (10 : CodePoint) ∉ value) {m : Match}
    (h : reMatch (whole nameDayParts) value = some m) :
    NameDay (groupText m 1) (groupText m 2) (groupText m 3) value := by
  obtain ⟨us, hus, rfl, hgroups⟩ := reMatch_whole hline h
  simp only [nameDayParts, List.forall₂_cons_left_iff, List.forall₂_nil_left_iff] at hus
  obtain ⟨n, _, hn, ⟨p, _, hp, ⟨g, _, hg, ⟨d, _, hd, ⟨g', _, hg', ⟨y, _, hy, rfl, rfl⟩, rfl⟩, rfl⟩, rfl⟩,
    rfl⟩, rfl⟩ := hus
  have hshape := NameDay.intro (reads_name.mp ⟨hn, hp⟩) (reads_gapStretch.mp hg) (reads_digitStretch.mp hd)
    (reads_gapStretch.mp hg') (reads_digitStretch.mp hy)
  rw [groupText_of_captured hgroups, groupText_of_captured hgroups, groupText_of_captured hgroups]
  simpa [nameDayParts, captured, Stretch.captures, digitStretch, gapStretch, letterStretch, dotStretch] using hshape

theorem reMatch_of_nameDay {name day year value : PyStr} (h : NameDay name day year value)
    (hok : ∀ c ∈ value, Plainly c) :
    ∃ m, reMatch (whole nameDayParts) value = some m ∧
      groupText m 1 = name ∧ groupText m 2 = day ∧ groupText m 3 = year := by
  obtain @⟨g, n, g', hn, hg, hd, hg', hy⟩ := h
  obtain ⟨p, rfl⟩ : ∃ p, n = name ++ p := by
    cases hn
    · exact ⟨[], (List.append_nil _).symm⟩
    · exact ⟨_, rfl⟩
  obtain ⟨hname, hp⟩ := (@reads_name _ 1 _ _).mpr hn
  have hflat : (name ++ p) ++ (g ++ (day ++ (g' ++ year))) = [name, p, g, day, g', year].flatten := by simp
  rw [hflat] at hok ⊢
  have hus : List.Forall₂ (Stretch.Reads sre) nameDayParts [name, p, g, day, g', year] :=
    .cons hname (.cons hp (.cons (reads_gapStretch.mpr hg) (.cons (reads_digitStretch.mpr hd)
      (.cons (reads_gapStretch.mpr hg') (.cons (reads_digitStretch.mpr hy) .nil)))))
  obtain ⟨m, hm, hgroups⟩ := reMatch_flatten (by decide) hus hok
  refine ⟨m, hm, ?_, ?_, ?_⟩ <;> rw [groupText_of_captured hgroups] <;>
    simp [nameDayParts, captured, Stretch.captures, digitStretch, gapStretch, letterStretch, dotStretch]

/-! ## No text has two shapes -/

theorem Figures.prefix_unique {least most least' most' : ℕ} {u v rest rest' : PyStr}
    (h : u ++ rest = v ++ rest') (hu : Figures least most u) (hv : Figures least' most' v)
    (hrest : ∀ c ∈ rest.head?, isDigit c = false) (hrest' : ∀ c ∈ rest'.head?, isDigit c = false) :
    u = v ∧ rest = rest' := append_inj_of_class h hu.all hv.all hrest hrest'

theorem IsMark.not_digit {c : CodePoint} (h : IsMark c) : isDigit c = false := by
  rw [Bool.eq_false_iff]
  intro hc
  rcases h with rfl | rfl | rfl <;> exact absurd ((isDigit_ascii (by decide)).mp hc) (by decide)

omit [Unicode] in
theorem IsLetter.bounds {c : CodePoint} (h : IsLetter c) : 65 ≤ c.val ∧ c.val ≤ 122 := by
  rcases h with ⟨h1, h2⟩ | ⟨h1, h2⟩ <;> rw [Fin.le_def] at h1 h2 <;> constructor
  · exact h1
  · exact h2.trans (by decide)
  · exact le_trans (by decide) h1
  · exact h2

theorem IsLetter.not_digit {c : CodePoint} (h : IsLetter c) : isDigit c = false := by
  have hval := h.bounds
  rw [Bool.eq_false_iff]
  intro hc
  have hdigit := (isDigit_ascii (by omega)).mp hc
  omega

theorem Plainly.not_digit {c : CodePoint} (h : Plainly c) (hc : isWhite c = true) : isDigit c = false := by
  obtain rfl := h.resolve_left (by simp [hc])
  rw [Bool.eq_false_iff]
  exact fun hdigit ↦ absurd ((isDigit_ascii (by decide)).mp hdigit) (by decide)

/-- A gap in a squeezed text begins with no digit. -/
theorem Gap.head_not_digit {g rest : PyStr} (hg : Gap g) (hok : ∀ c ∈ g, Plainly c) :
    ∀ c ∈ (g ++ rest).head?, isDigit c = false := by
  obtain ⟨hwhite, hne⟩ := hg
  cases g with
  | nil => exact absurd rfl hne
  | cons x g =>
    intro c hc
    obtain rfl : x = c := Option.some.inj hc
    exact (hok x List.mem_cons_self).not_digit (hwhite x List.mem_cons_self)

theorem Abbreviated.cons {name n : PyStr} (h : Abbreviated name n) : ∃ c rest, n = c :: rest ∧ IsLetter c := by
  cases h with
  | plain hne hall =>
    obtain ⟨c, rest, rfl⟩ := List.exists_cons_of_ne_nil hne
    exact ⟨c, rest, rfl, hall c List.mem_cons_self⟩
  | point hne hall =>
    obtain ⟨c, rest, rfl⟩ := List.exists_cons_of_ne_nil hne
    exact ⟨c, rest ++ [46], rfl, hall c List.mem_cons_self⟩

section

variable {value : PyStr} (hok : ∀ c ∈ value, Plainly c)

/-- The first number of a text with marks has as many digits as one shape says. -/
theorem Marked.first_length {l k l' k' l₂ k₂ l₂' k₂' : ℕ} {u v w u' v' w' : PyStr}
    (h : Marked l k l' k' u v w value) (h' : Marked l₂ k₂ l₂' k₂' u' v' w' value) : l ≤ k₂ := by
  obtain @⟨a, b, hu, ha, -, -, -⟩ := h
  generalize hvalue : u ++ a :: (v ++ b :: w) = text at h'
  obtain @⟨a', b', hu', ha', -, -, -⟩ := h'
  obtain ⟨rfl, -⟩ := hu.prefix_unique hvalue hu' (fun c hc ↦ Option.some.inj hc ▸ ha.not_digit)
    fun c hc ↦ Option.some.inj hc ▸ ha'.not_digit
  exact hu.least.trans hu'.most

include hok in
theorem Marked.not_dayName {l k l' k' : ℕ} {u v w d n y : PyStr} (h : Marked l k l' k' u v w value) :
    ¬ DayName d n y value := by
  intro h'
  obtain @⟨a, b, hu, ha, -, -, -⟩ := h
  generalize hvalue : u ++ a :: (v ++ b :: w) = text at h' hok
  obtain @⟨g, n', g', hd, hg, hn, -, -⟩ := h'
  have hgap : ∀ c ∈ g, Plainly c := fun c hc ↦
    hok c (List.mem_append_right d (List.mem_append_left _ hc))
  obtain ⟨-, hrest⟩ := hu.prefix_unique hvalue hd (fun c hc ↦ Option.some.inj hc ▸ ha.not_digit)
    (hg.head_not_digit hgap)
  obtain ⟨hwhite, hne⟩ := hg
  cases g with
  | nil => exact absurd rfl hne
  | cons x g =>
    obtain ⟨rfl, -⟩ := List.cons_eq_cons.mp hrest
    have hblank := hwhite a List.mem_cons_self
    rcases ha with rfl | rfl | rfl <;> exact absurd hblank (by decide)

/-- A text that begins with a digit does not begin with the name of a month. -/
theorem NameDay.not_figures {n d y u rest : PyStr} (h : NameDay n d y value) {l k : ℕ} (hl : 1 ≤ l)
    (hu : Figures l k u) : value ≠ u ++ rest := by
  intro hvalue
  obtain @⟨g, n', g', hn, -, -, -, -⟩ := h
  obtain ⟨c, more, rfl, hc⟩ := hn.cons
  have hlength := hu.least
  cases u with
  | nil => exact absurd hlength (by rw [List.length_nil]; omega)
  | cons x u =>
    obtain ⟨rfl, -⟩ := List.cons_eq_cons.mp hvalue
    have hdigit := hu.all c List.mem_cons_self
    rw [hc.not_digit] at hdigit
    cases hdigit

theorem NameDay.not_marked {n d y u v w : PyStr} (h : NameDay n d y value) {l k l' k' : ℕ} (hl : 1 ≤ l) :
    ¬ Marked l k l' k' u v w value := by
  rintro @⟨a, b, hu, -, -, -, -⟩
  exact h.not_figures hl hu rfl

theorem NameDay.not_dayName {n d y d' n' y' : PyStr} (h : NameDay n d y value) : ¬ DayName d' n' y' value := by
  rintro @⟨g, m, g', hd, -, -, -, -⟩
  exact h.not_figures le_rfl hd rfl

theorem Marked.ne_nil {l k l' k' : ℕ} {u v w : PyStr} (h : Marked l k l' k' u v w value) : value ≠ [] := by
  cases h
  exact List.append_ne_nil_of_right_ne_nil _ (List.cons_ne_nil _ _)

theorem DayName.ne_nil {d n y : PyStr} (h : DayName d n y value) : value ≠ [] := by
  obtain @⟨g, m, g', -, hg, -, -, -⟩ := h
  exact List.append_ne_nil_of_right_ne_nil _ (List.append_ne_nil_of_left_ne_nil hg.ne_nil _)

theorem NameDay.ne_nil {n d y : PyStr} (h : NameDay n d y value) : value ≠ [] := by
  obtain @⟨g, m, g', -, hg, -, -, -⟩ := h
  exact List.append_ne_nil_of_right_ne_nil _ (List.append_ne_nil_of_left_ne_nil hg.ne_nil _)

theorem reMatch_marked_none (hline : (10 : CodePoint) ∉ value) {l k l' k' : ℕ}
    (h : ∀ u v w, ¬ Marked l k l' k' u v w value) : reMatch (whole (markedParts l k l' k')) value = none :=
  Option.eq_none_iff_forall_ne_some.mpr fun _ hm ↦ h _ _ _ (marked_of_reMatch hline hm)

end

/-! ## What a text reads as -/

/-- A text as its dates are looked for in it: stripped, with single blanks and without commas. -/
def dateText (text : PyStr) : PyStr := replace (py ",") [] (squeeze (py " ") (strip text))

omit [Unicode] in
theorem mem_replace_comma {c : CodePoint} {s : PyStr} (h : c ∈ replace (py ",") [] s) : c ∈ s := by
  rw [show py "," = [44] from rfl, replace_single] at h
  obtain ⟨x, hx, hc⟩ := List.mem_flatMap.mp h
  split_ifs at hc
  · cases hc
  · rwa [List.mem_singleton.mp hc]

theorem plainly_dateText (text : PyStr) : ∀ c ∈ dateText text, Plainly c := by
  intro c hc
  rcases mem_squeeze (mem_replace_comma hc) with hblank | ⟨-, hblack⟩
  · exact Or.inr (List.mem_singleton.mp hblank)
  · exact Or.inl hblack

omit [Unicode] in
theorem no_newline {value : PyStr} (hok : ∀ c ∈ value, Plainly c) : (10 : CodePoint) ∉ value := fun h10 ↦ by
  have hplain := hok 10 h10
  revert hplain
  unfold Plainly
  decide

variable [Casing]

/-- A year below a hundred is one of this century. -/
def fullYear (stated : ℕ) : ℕ := if stated < 100 then stated + 2000 else stated

/-- A text with single blanks and without commas that stands for a date. Of the two orders of day and
month the other one is read where the day cannot be a month. -/
inductive ReadsAs (dayFirst : Bool) (date : Date) (value : PyStr) : Prop
  | yearMonthDay {y m d : PyStr} (h : Marked 4 4 1 2 y m d value) (hyear : date.year = intOf y)
      (hmonth : date.month = intOf m) (hday : date.day = intOf d)
  | dayMonthYear {d m y : PyStr} (h : Marked 1 2 2 4 d m y value) (hyear : date.year = fullYear (intOf y))
      (hmonth : date.month = intOf m) (hday : date.day = intOf d) (order : dayFirst = true ∨ 12 < date.day)
  | monthDayYear {m d y : PyStr} (h : Marked 1 2 2 4 m d y value) (hyear : date.year = fullYear (intOf y))
      (hmonth : date.month = intOf m) (hday : date.day = intOf d) (order : dayFirst = false ∨ 12 < date.day)
  | dayNameYear {d n y : PyStr} (h : DayName d n y value) (hyear : date.year = intOf y)
      (hmonth : MONTHS.lookup (Casing.lower n) = some date.month) (hday : date.day = intOf d)
  | nameDayYear {n d y : PyStr} (h : NameDay n d y value) (hyear : date.year = intOf y)
      (hmonth : MONTHS.lookup (Casing.lower n) = some date.month) (hday : date.day = intOf d)

omit [Unicode] [Casing] in
/-- Which order of day and month two numbers are read in. -/
theorem make_numeric_iff {dayFirst : Bool} {date : Date} {first second year : ℕ} :
    (if dayFirst ∧ second ≤ 12 then Date.make year second first
      else if first > 12 ∧ second ≤ 12 then Date.make year second first
      else Date.make year first second) = some date ↔
    (date.year = year ∧ date.month = second ∧ date.day = first ∧ (dayFirst = true ∨ 12 < date.day)) ∨
      (date.year = year ∧ date.month = first ∧ date.day = second ∧ (dayFirst = false ∨ 12 < date.day)) := by
  have hmonth := date.month_le
  by_cases hfirst : dayFirst = true ∧ second ≤ 12
  · rw [if_pos hfirst, Date.make_eq_some_iff]
    constructor
    · rintro ⟨hy, hm, hd⟩
      exact Or.inl ⟨hy, hm, hd, Or.inl hfirst.1⟩
    · rintro (⟨hy, hm, hd, -⟩ | ⟨-, -, hd, horder⟩)
      · exact ⟨hy, hm, hd⟩
      · rcases horder with hno | hday
        · rw [hfirst.1] at hno
          cases hno
        · omega
  · rw [if_neg hfirst]
    by_cases hswap : first > 12 ∧ second ≤ 12
    · rw [if_pos hswap, Date.make_eq_some_iff]
      constructor
      · rintro ⟨hy, hm, hd⟩
        exact Or.inl ⟨hy, hm, hd, Or.inr (hd ▸ hswap.1)⟩
      · rintro (⟨hy, hm, hd, -⟩ | ⟨-, hm, -⟩)
        · exact ⟨hy, hm, hd⟩
        · omega
    · rw [if_neg hswap, Date.make_eq_some_iff]
      constructor
      · rintro ⟨hy, hm, hd⟩
        refine Or.inr ⟨hy, hm, hd, ?_⟩
        cases dayFirst with
        | false => exact Or.inl rfl
        | true =>
          have hsecond : ¬ second ≤ 12 := fun h ↦ hfirst ⟨rfl, h⟩
          exact Or.inr (by omega)
      · rintro (⟨-, hm, hd, horder⟩ | ⟨hy, hm, hd, -⟩)
        · rcases horder with hyes | hday
          · exact absurd ⟨hyes, by omega⟩ hfirst
          · omega
        · exact ⟨hy, hm, hd⟩

omit [Unicode] in
theorem makeNamedDate_iff {year day : ℕ} {name : PyStr} {date : Date} :
    makeNamedDate year name day = some date ↔
      date.year = year ∧ MONTHS.lookup (Casing.lower name) = some date.month ∧ date.day = day := by
  rw [makeNamedDate]
  cases hlookup : MONTHS.lookup (Casing.lower name) with
  | none => simp
  | some month =>
    rw [Option.bind_eq_bind, Option.bind_some, Date.make_eq_some_iff, Option.some.injEq, eq_comm (b := month)]

theorem readsAs_of_parseDate {text : PyStr} {dayFirst : Bool} {date : Date}
    (h : parseDate text dayFirst = some date) : ReadsAs dayFirst date (dateText text) := by
  have hline := no_newline (plainly_dateText text)
  unfold parseDate at h
  change (if (dateText text).isEmpty = true then none else _) = _ at h
  rw [← dateText] at h
  split_ifs at h
  cases hiso : reMatch isoDate (dateText text) with
  | some m =>
    rw [hiso] at h
    rw [isoDate_eq] at hiso
    obtain ⟨hyear, hmonth, hday⟩ := Date.make_eq_some h
    exact .yearMonthDay (marked_of_reMatch hline hiso) hyear hmonth hday
  | none =>
    rw [hiso] at h
    cases hnumeric : reMatch numericDate (dateText text) with
    | some m =>
      rw [hnumeric] at h
      rw [numericDate_eq] at hnumeric
      have hmarked := marked_of_reMatch hline hnumeric
      rcases make_numeric_iff.mp h with ⟨hyear, hmonth, hday, horder⟩ | ⟨hyear, hmonth, hday, horder⟩
      · exact .dayMonthYear hmarked hyear hmonth hday horder
      · exact .monthDayYear hmarked hyear hmonth hday horder
    | none =>
      rw [hnumeric] at h
      cases hdayName : reMatch dayNameDate (dateText text) with
      | some m =>
        rw [hdayName] at h
        rw [dayNameDate_eq] at hdayName
        obtain ⟨hyear, hmonth, hday⟩ := makeNamedDate_iff.mp h
        exact .dayNameYear (dayName_of_reMatch hline hdayName) hyear hmonth hday
      | none =>
        rw [hdayName] at h
        cases hnameDay : reMatch nameDayDate (dateText text) with
        | some m =>
          rw [hnameDay] at h
          rw [nameDayDate_eq] at hnameDay
          obtain ⟨hyear, hmonth, hday⟩ := makeNamedDate_iff.mp h
          exact .nameDayYear (nameDay_of_reMatch hline hnameDay) hyear hmonth hday
        | none =>
          rw [hnameDay] at h
          cases h

theorem ReadsAs.ne_nil {dayFirst : Bool} {date : Date} {value : PyStr} (h : ReadsAs dayFirst date value) :
    value ≠ [] := by
  cases h with
  | yearMonthDay h => exact h.ne_nil
  | dayMonthYear h => exact h.ne_nil
  | monthDayYear h => exact h.ne_nil
  | dayNameYear h => exact h.ne_nil
  | nameDayYear h => exact h.ne_nil

theorem parseDate_of_readsAs {text : PyStr} {dayFirst : Bool} {date : Date}
    (h : ReadsAs dayFirst date (dateText text)) : parseDate text dayFirst = some date := by
  have hok := plainly_dateText text
  have hline := no_newline hok
  -- Each shape is looked for behind the ones that the text does not have.
  have hnumeric_not_iso : ∀ {u v w : PyStr}, Marked 1 2 2 4 u v w (dateText text) →
      reMatch isoDate (dateText text) = none := by
    intro u v w hmarked
    rw [isoDate_eq]
    exact reMatch_marked_none hline fun u' v' w' hiso ↦ absurd (hiso.first_length hmarked) (by decide)
  have hday_not_marked : ∀ {d n y : PyStr}, DayName d n y (dateText text) → ∀ l k l' k',
      reMatch (whole (markedParts l k l' k')) (dateText text) = none := by
    intro d n y hshape l k l' k'
    exact reMatch_marked_none hline fun u v w hmarked ↦ hmarked.not_dayName hok hshape
  have hname_not_marked : ∀ {n d y : PyStr}, NameDay n d y (dateText text) → ∀ l k l' k', 1 ≤ l →
      reMatch (whole (markedParts l k l' k')) (dateText text) = none := by
    intro n d y hshape l k l' k' hl
    exact reMatch_marked_none hline fun u v w hmarked ↦ hshape.not_marked hl hmarked
  have hsome : (dateText text).isEmpty = false := List.isEmpty_eq_false_iff.mpr h.ne_nil
  unfold parseDate
  change (if (dateText text).isEmpty = true then none else _) = _
  rw [← dateText, hsome, if_neg Bool.false_ne_true]
  cases h with
  | yearMonthDay hmarked hyear hmonth hday =>
    obtain ⟨m, hm, h1, h2, h3⟩ := reMatch_of_marked hmarked hok
    rw [← isoDate_eq] at hm
    rw [hm]
    simp only [h1, h2, h3]
    exact Date.make_eq_some_iff.mpr ⟨hyear, hmonth, hday⟩
  | dayMonthYear hmarked hyear hmonth hday horder =>
    obtain ⟨m, hm, h1, h2, h3⟩ := reMatch_of_marked hmarked hok
    rw [← numericDate_eq] at hm
    rw [hnumeric_not_iso hmarked, hm]
    simp only [h1, h2, h3]
    exact make_numeric_iff.mpr (Or.inl ⟨hyear, hmonth, hday, horder⟩)
  | monthDayYear hmarked hyear hmonth hday horder =>
    obtain ⟨m, hm, h1, h2, h3⟩ := reMatch_of_marked hmarked hok
    rw [← numericDate_eq] at hm
    rw [hnumeric_not_iso hmarked, hm]
    simp only [h1, h2, h3]
    exact make_numeric_iff.mpr (Or.inr ⟨hyear, hmonth, hday, horder⟩)
  | dayNameYear hshape hyear hmonth hday =>
    obtain ⟨m, hm, h1, h2, h3⟩ := reMatch_of_dayName hshape hok
    rw [isoDate_eq, hday_not_marked hshape, numericDate_eq, hday_not_marked hshape, dayNameDate_eq, hm]
    simp only [h1, h2, h3]
    exact makeNamedDate_iff.mpr ⟨hyear, hmonth, hday⟩
  | nameDayYear hshape hyear hmonth hday =>
    obtain ⟨m, hm, h1, h2, h3⟩ := reMatch_of_nameDay hshape hok
    have hnot_day : reMatch dayNameDate (dateText text) = none := by
      rw [dayNameDate_eq]
      exact Option.eq_none_iff_forall_ne_some.mpr fun m hm ↦ hshape.not_dayName (dayName_of_reMatch hline hm)
    rw [isoDate_eq, hname_not_marked hshape _ _ _ _ (by decide), numericDate_eq,
      hname_not_marked hshape _ _ _ _ (by decide), hnot_day, nameDayDate_eq, hm]
    simp only [h1, h2, h3]
    exact makeNamedDate_iff.mpr ⟨hyear, hmonth, hday⟩

/-- What a text reads as is all that is read of it. -/
theorem parseDate_iff {text : PyStr} {dayFirst : Bool} {date : Date} :
    parseDate text dayFirst = some date ↔ ReadsAs dayFirst date (dateText text) :=
  ⟨readsAs_of_parseDate, parseDate_of_readsAs⟩

/-! ## Spelling a date -/

/-- A number in digits, with zeros in front of it or without. -/
def Spelled (least most n : ℕ) (s : PyStr) : Prop :=
  ∃ ds : List (Fin 10), s = digitsText ds ∧ ofDigits ds = n ∧ least ≤ ds.length ∧ ds.length ≤ most

/-- The spellings of a date: year, month and day, or day, month and year in the order of the convention,
with marks between them; or day, month and year, or month, day and year, with the month by its name. -/
inductive Spells (dayFirst : Bool) (date : Date) : PyStr → Prop
  | yearMonthDay {y m d : PyStr} {a b : CodePoint} (hy : Spelled 4 4 date.year y) (ha : IsMark a)
      (hm : Spelled 1 2 date.month m) (hb : IsMark b) (hd : Spelled 1 2 date.day d) :
      Spells dayFirst date (y ++ a :: (m ++ b :: d))
  | dayMonthYear {y m d : PyStr} {a b : CodePoint} (order : dayFirst = true) (hd : Spelled 1 2 date.day d)
      (ha : IsMark a) (hm : Spelled 1 2 date.month m) (hb : IsMark b) (hy : Spelled 4 4 date.year y) :
      Spells dayFirst date (d ++ a :: (m ++ b :: y))
  | monthDayYear {y m d : PyStr} {a b : CodePoint} (order : dayFirst = false) (hm : Spelled 1 2 date.month m)
      (ha : IsMark a) (hd : Spelled 1 2 date.day d) (hb : IsMark b) (hy : Spelled 4 4 date.year y) :
      Spells dayFirst date (m ++ a :: (d ++ b :: y))
  | dayNameYear {d g name n g' y : PyStr} (hd : Spelled 1 2 date.day d) (hg : Gap g)
      (hname : MONTHS.lookup (Casing.lower name) = some date.month) (hn : Abbreviated name n) (hg' : Gap g')
      (hy : Spelled 4 4 date.year y) : Spells dayFirst date (d ++ (g ++ (n ++ (g' ++ y))))
  | nameDayYear {name n g d comma g' y : PyStr} (hname : MONTHS.lookup (Casing.lower name) = some date.month)
      (hn : Abbreviated name n) (hg : Gap g) (hd : Spelled 1 2 date.day d) (hcomma : comma = [] ∨ comma = [44])
      (hg' : Gap g') (hy : Spelled 4 4 date.year y) :
      Spells dayFirst date (n ++ (g ++ ((d ++ comma) ++ (g' ++ y))))

/-- Characters that are kept as they are: neither white space nor a comma. -/
def Kept (s : PyStr) : Prop := ∀ c ∈ s, isWhite c = false ∧ c ≠ 44

section

variable {s t : PyStr}

omit [Unicode] [Casing]

theorem Kept.black (h : Kept s) : Black s := fun c hc ↦ (h c hc).1

theorem Kept.append (hs : Kept s) (ht : Kept t) : Kept (s ++ t) := fun c hc ↦
  (List.mem_append.mp hc).elim (hs c) (ht c)

theorem Kept.replace_comma (h : Kept s) (t : PyStr) : replace (py ",") [] (s ++ t) = s ++ replace (py ",") [] t := by
  rw [show py "," = [44] from rfl, replace_single, replace_single, List.flatMap_append,
    flatMap_ite_of_notMem fun hc ↦ (h 44 hc).2 rfl]

theorem Kept.replace_comma_self (h : Kept s) : replace (py ",") [] s = s := by
  have hself := h.replace_comma []
  rw [List.append_nil] at hself
  exact hself.trans (List.append_nil s)

theorem kept_digitsText (ds : List (Fin 10)) : Kept (digitsText ds) := by
  intro c hc
  obtain ⟨d, -, rfl⟩ := List.mem_map.mp hc
  clear hc ds
  revert d
  decide

theorem IsMark.kept {c : CodePoint} (h : IsMark c) : isWhite c = false ∧ c ≠ 44 := by
  rcases h with rfl | rfl | rfl <;> decide

theorem IsLetter.kept {c : CodePoint} (h : IsLetter c) : isWhite c = false ∧ c ≠ 44 := by
  have hval := h.bounds
  constructor
  · simp only [isWhite, Bool.or_eq_false_iff, Bool.and_eq_false_iff, decide_eq_false_iff_not]
    omega
  · rintro rfl
    exact absurd hval (by decide)

theorem Abbreviated.ne_nil {name n : PyStr} (h : Abbreviated name n) : n ≠ [] := by
  cases h with
  | plain hne hall => exact hne
  | point hne hall => exact List.append_ne_nil_of_left_ne_nil hne _

theorem kept_marked {u v w : PyStr} {a b : CodePoint} (hu : Kept u) (ha : IsMark a) (hv : Kept v)
    (hb : IsMark b) (hw : Kept w) : Kept (u ++ a :: (v ++ b :: w)) := by
  have hbehind : Kept (b :: w) := List.forall_mem_cons.mpr ⟨hb.kept, hw⟩
  exact hu.append (List.forall_mem_cons.mpr ⟨ha.kept, hv.append hbehind⟩)

theorem Abbreviated.kept {name n : PyStr} (h : Abbreviated name n) : Kept n := by
  cases h with
  | plain hne hall => exact fun c hc ↦ (hall c hc).kept
  | point hne hall => exact Kept.append (fun c hc ↦ (hall c hc).kept) (List.forall_mem_singleton.mpr (by decide))

theorem Spelled.kept {least most n : ℕ} (h : Spelled least most n s) : Kept s := by
  obtain ⟨ds, rfl, -⟩ := h
  exact kept_digitsText ds

theorem Spelled.ne_nil {least most n : ℕ} (h : Spelled (least + 1) most n s) : s ≠ [] := by
  obtain ⟨ds, rfl, -, hlength, -⟩ := h
  rw [digitsText, ← List.length_pos_iff, List.length_map]
  omega

end

omit [Casing] in
theorem Spelled.figures {least most n : ℕ} {s : PyStr} (h : Spelled least most n s) :
    Figures least most s ∧ intOf s = n := by
  obtain ⟨ds, rfl, hvalue, hleast, hmost⟩ := h
  refine ⟨⟨?_, ?_, ?_⟩, ?_⟩
  · intro c hc
    obtain ⟨d, -, rfl⟩ := List.mem_map.mp hc
    exact isDigit_digitChar d
  · rwa [digitsText, List.length_map]
  · rwa [digitsText, List.length_map]
  · rw [intOf, decimals_digitsText]
    exact hvalue

omit [Unicode] [Casing] in
theorem black_stripped {u s w : PyStr} (hu : Black u) (hw : Black w) (hune : u ≠ []) (hwne : w ≠ []) :
    Stripped (u ++ (s ++ w)) := by
  constructor
  · intro c hc
    rw [List.head?_append_of_ne_nil _ hune] at hc
    exact hu c (List.mem_of_head? hc)
  · intro c hc
    rw [List.getLast?_append_of_ne_nil _ (List.append_ne_nil_of_right_ne_nil _ hwne),
      List.getLast?_append_of_ne_nil _ hwne] at hc
    exact hw c (List.mem_of_getLast? hc)

omit [Casing] in
theorem dateText_kept {s : PyStr} (h : Kept s) : dateText s = s := by
  have hstripped : Stripped s :=
    ⟨fun c hc ↦ (h c (List.mem_of_head? hc)).1, fun c hc ↦ (h c (List.mem_of_getLast? hc)).1⟩
  rw [dateText, hstripped.strip_eq, squeeze_of_black h.black, h.replace_comma_self]

omit [Casing] in
/-- Three words with gaps between them are three words with blanks between them. -/
theorem dateText_words {u g v g' w : PyStr} (hu : Black u) (hune : u ≠ []) (hg : Gap g) (hv : Black v)
    (hvne : v ≠ []) (hg' : Gap g') (hw : Black w) (hwne : w ≠ []) :
    dateText (u ++ (g ++ (v ++ (g' ++ w)))) = replace (py ",") [] (u ++ ([32] ++ (v ++ ([32] ++ w)))) := by
  have hshape : u ++ (g ++ (v ++ (g' ++ w))) = u ++ ((g ++ (v ++ g')) ++ w) := by
    simp only [List.append_assoc]
  have hstrip : strip (u ++ (g ++ (v ++ (g' ++ w)))) = u ++ (g ++ (v ++ (g' ++ w))) := by
    rw [hshape]
    exact (black_stripped hu hw hune hwne).strip_eq
  have hv_head : ∀ c ∈ (v ++ (g' ++ w)).head?, isWhite c = false := fun c hc ↦ by
    rw [List.head?_append_of_ne_nil _ hvne] at hc
    exact hv c (List.mem_of_head? hc)
  rw [dateText, hstrip, squeeze_black hu, squeeze_white hg.white hg.ne_nil hv_head, squeeze_black hv,
    squeeze_white hg'.white hg'.ne_nil fun c hc ↦ hw c (List.mem_of_head? hc), squeeze_of_black hw]
  rfl

theorem fullYear_of_le {n : ℕ} (h : 100 ≤ n) : fullYear n = n := if_neg (by omega)

/-- A spelled date reads as that date. -/
theorem Spells.readsAs {dayFirst : Bool} {date : Date} {text : PyStr} (h : Spells dayFirst date text)
    (hyear : 1000 ≤ date.year) : ReadsAs dayFirst date (dateText text) := by
  have hblank : Gap [32] := ⟨List.forall_mem_singleton.mpr (by decide), List.cons_ne_nil _ _⟩
  have hkept_blank : ∀ t, replace (py ",") [] ([32] ++ t) = [32] ++ replace (py ",") [] t := fun t ↦ by
    rw [show py "," = [44] from rfl, replace_single, replace_single, List.flatMap_append]
    rfl
  cases h with
  | yearMonthDay hy ha hm hb hd =>
    rw [dateText_kept (kept_marked hy.kept ha hm.kept hb hd.kept)]
    exact .yearMonthDay (.intro hy.figures.1 ha hm.figures.1 hb hd.figures.1) hy.figures.2.symm
      hm.figures.2.symm hd.figures.2.symm
  | dayMonthYear order hd ha hm hb hy =>
    rw [dateText_kept (kept_marked hd.kept ha hm.kept hb hy.kept)]
    have hfull : date.year = fullYear date.year := (fullYear_of_le (by omega)).symm
    rw [← hy.figures.2] at hfull
    exact .dayMonthYear (.intro hd.figures.1 ha hm.figures.1 hb
      ⟨hy.figures.1.all, le_trans (by decide) hy.figures.1.least, hy.figures.1.most⟩)
      (hy.figures.2.symm.trans hfull) hm.figures.2.symm hd.figures.2.symm (Or.inl order)
  | monthDayYear order hm ha hd hb hy =>
    rw [dateText_kept (kept_marked hm.kept ha hd.kept hb hy.kept)]
    have hfull : date.year = fullYear date.year := (fullYear_of_le (by omega)).symm
    rw [← hy.figures.2] at hfull
    exact .monthDayYear (.intro hm.figures.1 ha hd.figures.1 hb
      ⟨hy.figures.1.all, le_trans (by decide) hy.figures.1.least, hy.figures.1.most⟩)
      (hy.figures.2.symm.trans hfull) hm.figures.2.symm hd.figures.2.symm (Or.inl order)
  | dayNameYear hd hg hname hn hg' hy =>
    rw [dateText_words hd.kept.black hd.ne_nil hg hn.kept.black hn.ne_nil hg' hy.kept.black hy.ne_nil,
      hd.kept.replace_comma, hkept_blank, hn.kept.replace_comma, hkept_blank, hy.kept.replace_comma_self]
    exact .dayNameYear (.intro hd.figures.1 hblank hn hblank hy.figures.1) hy.figures.2.symm hname
      hd.figures.2.symm
  | @nameDayYear name n g d comma g' y hname hn hg hd hcomma hg' hy =>
    have hblack : Black (d ++ comma) := by
      rcases hcomma with rfl | rfl
      · exact hd.kept.black.append nofun
      · exact hd.kept.black.append (List.forall_mem_singleton.mpr (by decide))
    have hgone : replace (py ",") [] ((d ++ comma) ++ ([32] ++ y)) = d ++ ([32] ++ y) := by
      have hcomma_gone : ∀ t, replace (py ",") [] (comma ++ t) = replace (py ",") [] t := fun t ↦ by
        rcases hcomma with rfl | rfl
        · rfl
        · rw [show py "," = [44] from rfl, replace_single, replace_single, List.flatMap_append]
          rfl
      rw [List.append_assoc, hd.kept.replace_comma, hcomma_gone, hkept_blank, hy.kept.replace_comma_self]
    rw [dateText_words hn.kept.black hn.ne_nil hg hblack (List.append_ne_nil_of_left_ne_nil hd.ne_nil _) hg'
      hy.kept.black hy.ne_nil, hn.kept.replace_comma, hkept_blank, hgone]
    exact .nameDayYear (.intro hn hblank hd.figures.1 hblank hy.figures.1) hy.figures.2.symm hname
      hd.figures.2.symm

/-- A date from the year 1000 on is read back from each of its spellings, and otherwise a date is read of
a text only where the text reads as that date. -/
theorem dates_read_back (dayFirst : Bool) (text : PyStr) (date : Date) :
    (1000 ≤ date.year → Spells dayFirst date text → parseDate text dayFirst = some date) ∧
      (parseDate text dayFirst = some date ↔ ReadsAs dayFirst date (dateText text)) ∧
      ((∀ d, ¬ ReadsAs dayFirst d (dateText text)) → parseDate text dayFirst = none) := by
  refine ⟨fun hyear hspells ↦ parseDate_of_readsAs (hspells.readsAs hyear), parseDate_iff, fun hno ↦ ?_⟩
  exact Option.eq_none_iff_forall_ne_some.mpr fun d hd ↦ hno d (readsAs_of_parseDate hd)

/-- A text of two numbers with a mark between them has the first two numbers of any spelling with marks. -/
theorem Spells.numbers {dayFirst : Bool} {date : Date} {u v w : PyStr} {a b : CodePoint}
    (h : Spells dayFirst date (u ++ a :: (v ++ b :: w))) (hkept : Kept (u ++ a :: (v ++ b :: w)))
    (hu : Figures 1 2 u) (ha : IsMark a) (hv : Figures 1 2 v) (hb : IsMark b) :
    dayFirst = true ∧ intOf v = date.month ∨ dayFirst = false ∧ intOf u = date.month := by
  have hmark : ∀ {c : CodePoint} {rest : PyStr}, IsMark c → ∀ x ∈ (c :: rest).head?, isDigit x = false :=
    fun hc x hx ↦ Option.some.inj hx ▸ hc.not_digit
  have hno_gap : ∀ {s g t : PyStr}, Gap g → u ++ a :: (v ++ b :: w) ≠ s ++ (g ++ t) := by
    intro s g t hg heq
    obtain ⟨x, more, rfl⟩ := List.exists_cons_of_ne_nil hg.ne_nil
    have hx := (hkept x (heq ▸ List.mem_append_right s List.mem_cons_self)).1
    rw [hg.white x List.mem_cons_self] at hx
    cases hx
  generalize htext : u ++ a :: (v ++ b :: w) = text at h
  cases h with
  | yearMonthDay hy ha' hm hb' hd =>
    obtain ⟨rfl, -⟩ := hu.prefix_unique htext hy.figures.1 (hmark ha) (hmark ha')
    exact absurd (hy.figures.1.least.trans hu.most) (by decide)
  | dayMonthYear order hd ha' hm hb' hy =>
    obtain ⟨rfl, hrest⟩ := hu.prefix_unique htext hd.figures.1 (hmark ha) (hmark ha')
    obtain ⟨rfl, hsame⟩ := hv.prefix_unique (List.cons_eq_cons.mp hrest).2 hm.figures.1 (hmark hb) (hmark hb')
    exact Or.inl ⟨order, hm.figures.2⟩
  | monthDayYear order hm ha' hd hb' hy =>
    obtain ⟨rfl, -⟩ := hu.prefix_unique htext hm.figures.1 (hmark ha) (hmark ha')
    exact Or.inr ⟨order, hm.figures.2⟩
  | dayNameYear hd hg => exact absurd htext (hno_gap hg)
  | nameDayYear hname hn hg => exact absurd htext (hno_gap hg)

end

/-- Where the day comes first `03/25/2024` is no date, and is read as the 25th of March. -/
theorem swapped_date_read :
    ¬ ∀ (u : Unicode) (c : Casing) (dayFirst : Bool) (text : PyStr),
      (∀ date, ¬ @Spells c dayFirst date text) → @parseDate u c text dayFirst = none := by
  intro h
  let u := asciiTables
  let c := asciiCasing
  have hspelled : ∀ n (ds : List (Fin 10)) (l k : ℕ), ofDigits ds = n → l ≤ ds.length → ds.length ≤ k →
      Spelled l k n (digitsText ds) := fun n ds l k hn hl hk ↦ ⟨ds, rfl, hn, hl, hk⟩
  have hmonth := (hspelled 3 [0, 3] 1 2 rfl (by decide) (by decide)).figures
  have hday := (hspelled 25 [2, 5] 1 2 rfl (by decide) (by decide)).figures
  have hyear := (hspelled 2024 [2, 0, 2, 4] 2 4 rfl (by decide) (by decide)).figures
  have hslash : IsMark 47 := Or.inr (Or.inl rfl)
  let text := digitsText [0, 3] ++ 47 :: (digitsText [2, 5] ++ 47 :: digitsText [2, 0, 2, 4])
  have hkept : Kept text :=
    kept_marked (kept_digitsText _) hslash (kept_digitsText _) hslash (kept_digitsText _)
  have hnone := h u c true text fun date hspells ↦ by
    rcases hspells.numbers hkept hmonth.1 hslash hday.1 hslash with ⟨-, hm⟩ | ⟨hfalse, -⟩
    · rw [hday.2] at hm
      exact absurd date.month_le (by omega)
    · cases hfalse
  have hreads : ReadsAs true ⟨2024, 3, 25, by decide, by decide, by decide, by decide, by decide, by decide⟩
      (dateText text) := by
    rw [dateText_kept hkept]
    exact .monthDayYear (.intro hmonth.1 hslash hday.1 hslash hyear.1) (congrArg fullYear hyear.2).symm
      hmonth.2.symm hday.2.symm (Or.inr (by decide))
  rw [parseDate_of_readsAs hreads] at hnone
  cases hnone

end FourCE.Calibration

import FourCE.Calibration.Assess
import FourCE.Calibration.Quantities
import FourCE.Calibration.Spacing
import FourCE.Library.RegexSpellings

/-!
# Like against like

An as-found error is compared with a tolerance when their units are of one kind.  What a unit means is its
base, the scale its prefix gives it and, of a percentage, what it is a share of; its kind is found through
small letters, so that a small `m` and a capital one are told apart for ohms alone, and all percentages are
of one kind.
-/

namespace FourCE.Calibration

open FourCE.Library.Regex FourCE.Python

/-! ## What a unit means -/

inductive Base
  | percent
  | celsius
  | fahrenheit
  | kelvin
  | metre
  | metrePerSecond
  | bar
  | psi
  | psig
  | psia
  | ohm
  | pascal
  | ampere
  | volt
  | hertz
  | rpm
  deriving DecidableEq, Repr

/-- What a prefix stands for. -/
inductive Scale
  | one
  | milli
  | hecto
  | kilo
  | mega
  deriving DecidableEq, Repr

/-- The units of the tool without their case: the base of each, and whether its first letter is a prefix. -/
def unitTable : List (PyStr × (Base × Bool)) :=
  [(py "%", (.percent, false)), (py "%fs", (.percent, false)), (py "%span", (.percent, false)),
    (py "%fullscale", (.percent, false)), (py "%full-scale", (.percent, false)),
    (py "%of", (.percent, false)), (py "%offs", (.percent, false)), (py "%ofspan", (.percent, false)),
    (py "%offullscale", (.percent, false)), (py "%offull-scale", (.percent, false)),
    (py "°c", (.celsius, false)), (py "degc", (.celsius, false)), (py "degreesc", (.celsius, false)),
    (py "°f", (.fahrenheit, false)), (py "degf", (.fahrenheit, false)), (py "degreesf", (.fahrenheit, false)),
    (py "°k", (.kelvin, false)), (py "degk", (.kelvin, false)), (py "degreesk", (.kelvin, false)),
    (py "k", (.kelvin, false)), (py "mm/s", (.metrePerSecond, true)), (py "mm", (.metre, true)),
    (py "mbar", (.bar, true)), (py "bar", (.bar, false)), (py "psig", (.psig, false)),
    (py "psia", (.psia, false)), (py "psi", (.psi, false)), (py "ω", (.ohm, false)), (py "ohm", (.ohm, false)),
    (py "ohms", (.ohm, false)), (py "kω", (.ohm, true)), (py "kohm", (.ohm, true)), (py "kohms", (.ohm, true)),
    (py "mω", (.ohm, true)), (py "mohm", (.ohm, true)), (py "mohms", (.ohm, true)), (py "kpa", (.pascal, true)),
    (py "mpa", (.pascal, true)), (py "hpa", (.pascal, true)), (py "pa", (.pascal, false)),
    (py "ma", (.ampere, true)), (py "mv", (.volt, true)), (py "v", (.volt, false)), (py "hz", (.hertz, false)),
    (py "rpm", (.rpm, false))]

/-- The scale of a prefix letter: of an `m` its case tells, of the others there is one. -/
def scaleOf (c : CodePoint) : Scale :=
  if c = 109 then .milli else if c = 77 then .mega else if foldCase c = 107 then .kilo else .hecto

/-- A text without its case. -/
def folded (w : PyStr) : PyStr := w.map foldCase

/-- The base and the scale of a unit without white space. -/
def measureOf (w : PyStr) : Option (Base × Scale) :=
  (unitTable.lookup (folded w)).map fun e ↦ (e.1, if e.2 then scaleOf (w.headD 0) else .one)

/-! ## What the pattern of the units reads -/

/-- What a character of a unit counts as: white space for nothing, a letter without its case. -/
def counts (c : CodePoint) : PyStr := if isWhite c then [] else [foldCase c]

def spellItem : Item → Option (List PyStr)
  | .one c => if isWhite (foldCase c) then none else some [[foldCase c]]
  | .space true => some [[]]
  | _ => none

/-- What the members of a class count as, where it lists characters and white space. -/
def spellClass (c : CharClass) : Option (List PyStr) :=
  if c.negated || !c.ignoreCase then none else (c.items.mapM spellItem).map List.flatten

theorem foldCase_white {c : CodePoint} (h : isWhite c = true) : foldCase c = c := by
  unfold foldCase
  split_ifs with h1 h2 h3 h4 h5
  · exfalso
    revert h
    simp only [isWhite, Bool.or_eq_true, Bool.and_eq_true, decide_eq_true_eq]
    omega
  all_goals first
    | rfl
    | (exfalso
       revert h
       simp only [isWhite, Bool.or_eq_true, Bool.and_eq_true, decide_eq_true_eq]
       omega)

theorem exists_mem_of_mapM {α β : Type} {f : α → Option β} {l : List α} {out : List β} {x : α}
    (h : l.mapM f = some out) (hx : x ∈ l) : ∃ y ∈ out, f x = some y := by
  induction l generalizing out with
  | nil => cases hx
  | cons z l ih =>
    simp only [List.mapM_cons, Option.bind_eq_bind, Option.bind_eq_some_iff, Option.pure_def,
      Option.some.injEq] at h
    obtain ⟨first, hfirst, rest, hrest, rfl⟩ := h
    rcases List.mem_cons.mp hx with rfl | hx
    · exact ⟨first, List.mem_cons_self, hfirst⟩
    · obtain ⟨y, hy, hxy⟩ := ih hrest hx
      exact ⟨y, List.mem_cons_of_mem _ hy, hxy⟩

theorem unitPattern_words : (spellings spellClass unitPattern).any (fun words ↦
    words.all fun w ↦ decide (w ∈ unitTable.map Prod.fst)) = true := by
  rw [unitPattern, re]
  decide +kernel

variable [Unicode]

theorem counts_mem_spellClass (c : CharClass) (words : List PyStr) (h : spellClass c = some words)
    (x : CodePoint) (hx : sre.accepts c x = true) : counts x ∈ words := by
  unfold spellClass at h
  split_ifs at h with hplain
  rw [Bool.or_eq_true, Bool.not_eq_true', not_or, Bool.not_eq_true, Bool.not_eq_false] at hplain
  obtain ⟨lists, hlists, rfl⟩ := Option.map_eq_some_iff.mp h
  have hany : ∃ item ∈ c.items, Item.accepts true x item = true := by
    have haccepts : (c.items.any (Item.accepts c.ignoreCase x) != c.negated) = true := hx
    rwa [hplain.1, hplain.2, Bool.bne_false, List.any_eq_true] at haccepts
  obtain ⟨item, hitem, hx⟩ := hany
  obtain ⟨list, hlist, hspell⟩ := exists_mem_of_mapM hlists hitem
  refine List.mem_flatten.mpr ⟨list, hlist, ?_⟩
  cases item with
  | one d =>
    change (if isWhite (foldCase d) then none else some [[foldCase d]]) = some list at hspell
    split_ifs at hspell with hwhite
    rw [Item.accepts, if_pos rfl, decide_eq_true_eq] at hx
    have hblack : isWhite x = false := by
      rw [Bool.eq_false_iff]
      intro h
      rw [← hx, foldCase_white h] at hwhite
      exact hwhite h
    obtain rfl := Option.some.inj hspell
    rw [counts, hblack, if_neg Bool.false_ne_true, hx]
    exact List.mem_cons_self
  | space is =>
    cases is with
    | false => cases hspell
    | true =>
      obtain rfl := Option.some.inj hspell
      rw [Item.accepts, beq_true] at hx
      rw [counts, hx, if_pos rfl]
      exact List.mem_cons_self
  | _ => cases hspell

theorem flatMap_counts (s : PyStr) : s.flatMap counts = folded (visible s) := by
  induction s with
  | nil => rfl
  | cons c s ih =>
    rw [List.flatMap_cons, ih]
    cases hc : isWhite c <;> simp [counts, folded, visible, hc]

/-- What is read by a pattern of finitely many words is one of them, white space and case apart. -/
theorem folded_mem_of_run {p : Pattern} {table : List PyStr}
    (hp : (spellings spellClass p).any (fun words ↦ words.all fun w ↦ decide (w ∈ table)) = true)
    {s t : State CodePoint} (ht : t ∈ run sre p s) : ∃ u, s.after = u ++ t.after ∧ folded (visible u) ∈ table := by
  obtain ⟨words, hwords, hall⟩ := (Option.any_eq_true _ _).mp hp
  obtain ⟨u, hu, hmem⟩ := mem_spellings (M := sre) counts_mem_spellClass hwords ht
  rw [flatMap_counts] at hmem
  exact ⟨u, hu, of_decide_eq_true (List.all_eq_true.mp hall _ hmem)⟩

theorem folded_of_unitBetween {before unit rest : PyStr} (h : UnitBetween before unit rest) :
    folded (visible unit) ∈ unitTable.map Prod.fst := by
  obtain ⟨v, hv, rfl⟩ := h
  obtain ⟨u, hu, hmem⟩ := folded_mem_of_run unitPattern_words hv
  rwa [List.append_cancel_right hu]

/-! ## Small letters -/

/-- Letters without a capital or small form in ASCII that pass for `s` and `i` where case is ignored. -/
def isOdd (c : CodePoint) : Bool := c = 0x17F || c = 0x130 || c = 0x131

/-- The characters that units are written with. -/
def isUnitChar (c : CodePoint) : Bool :=
  c.val < 128 || c = 0xB0 || c = 0x3C9 || c = 0x3A9 || c = 0x2126 || c = 0x212A || isOdd c

/-- `str.lower` of one of them. -/
def lowerChar (c : CodePoint) : PyStr :=
  if 65 ≤ c.val ∧ c.val ≤ 90 ∨ c = 0x3A9 ∨ c = 0x2126 ∨ c = 0x212A then [foldCase c]
  else if c = 0x130 then [105, 0x307]
  else [c]

/-- `str.lower` is known on the characters that units are written with. -/
structure LowersUnits (casing : Casing) : Prop where
  lower : ∀ w, (∀ c ∈ w, isUnitChar c = true) → casing.lower w = w.flatMap lowerChar

/-- What the small form of a character can be that is this one without its case. -/
def lowerings (y : CodePoint) : List PyStr :=
  if y = 115 then [[115], [0x17F]] else if y = 105 then [[105], [105, 0x307], [0x131]] else [[y]]

def loweringsOf : PyStr → List PyStr
  | [] => [[]]
  | y :: f => concats (lowerings y) (loweringsOf f)

section

omit [Unicode]

theorem mem_lowerings (y : CodePoint) : [y] ∈ lowerings y := by
  unfold lowerings
  split_ifs with h1 h2
  · rw [h1]
    exact List.mem_cons_self
  · rw [h2]
    exact List.mem_cons_self
  · exact List.mem_cons_self

theorem lowerChar_regular {c : CodePoint} (hc : isUnitChar c = true) (hodd : isOdd c = false) :
    lowerChar c = [foldCase c] := by
  unfold lowerChar
  split_ifs with h1 h2
  · rfl
  · subst h2
    cases hodd
  · congr 1
    rw [not_or, not_or, not_or] at h1
    obtain ⟨hcapital, hohm, hsign, hkelvin⟩ := h1
    simp only [isOdd, Bool.or_eq_false_iff, decide_eq_false_iff_not] at hodd
    obtain ⟨⟨hlong, hdotted⟩, hdotless⟩ := hodd
    have h130 : c.val ≠ 0x130 := fun h ↦ hdotted (Fin.ext h)
    have h131 : c.val ≠ 0x131 := fun h ↦ hdotless (Fin.ext h)
    have h17f : c.val ≠ 0x17F := fun h ↦ hlong (Fin.ext h)
    have h212a : c.val ≠ 0x212A := fun h ↦ hkelvin (Fin.ext h)
    have h3a9 : c.val ≠ 0x3A9 := fun h ↦ hohm (Fin.ext h)
    have h2126 : c.val ≠ 0x2126 := fun h ↦ hsign (Fin.ext h)
    unfold foldCase
    rw [dif_neg hcapital, if_neg (not_or.mpr ⟨h130, h131⟩), if_neg h17f, if_neg h212a,
      if_neg (not_or.mpr ⟨h3a9, h2126⟩)]

theorem lowerChar_mem {c : CodePoint} (hc : isUnitChar c = true) : lowerChar c ∈ lowerings (foldCase c) := by
  cases hodd : isOdd c with
  | false =>
    rw [lowerChar_regular hc hodd]
    exact mem_lowerings _
  | true =>
    simp only [isOdd, Bool.or_eq_true, decide_eq_true_eq] at hodd
    rcases hodd with (rfl | rfl) | rfl <;> decide

theorem flatMap_lowerChar_mem {w : PyStr} (hw : ∀ c ∈ w, isUnitChar c = true) :
    w.flatMap lowerChar ∈ loweringsOf (folded w) := by
  induction w with
  | nil => exact List.mem_cons_self
  | cons c w ih =>
    rw [List.flatMap_cons, folded, List.map_cons, loweringsOf]
    exact mem_concats (lowerChar_mem (hw c List.mem_cons_self)) (ih fun d hd ↦ hw d (List.mem_cons_of_mem c hd))

theorem flatMap_lowerChar_regular {w : PyStr} (hw : ∀ c ∈ w, isUnitChar c = true)
    (hodd : ∀ c ∈ w, isOdd c = false) : w.flatMap lowerChar = folded w := by
  induction w with
  | nil => rfl
  | cons c w ih =>
    rw [List.flatMap_cons, folded, List.map_cons, ← folded, lowerChar_regular (hw c List.mem_cons_self)
      (hodd c List.mem_cons_self), ih (fun d hd ↦ hw d (List.mem_cons_of_mem c hd))
      fun d hd ↦ hodd d (List.mem_cons_of_mem c hd)]
    rfl

/-- A character that is one of a unit without its case is one that units are written with. -/
theorem isUnitChar_of_fold {c : CodePoint}
    (h : (foldCase c).val < 128 ∨ foldCase c = 0xB0 ∨ foldCase c = 0x3C9) : isUnitChar c = true := by
  have hascii : c.val < 128 → isUnitChar c = true := fun hlt ↦ by
    simp [isUnitChar, hlt]
  have hspecial : ∀ d : CodePoint, isUnitChar d = true → c.val = d.val → isUnitChar c = true :=
    fun d hd heq ↦ by rwa [Fin.ext heq]
  unfold foldCase at h
  split_ifs at h with h1 h2 h3 h4 h5
  · exact hascii (by omega)
  · exact h2.elim (hspecial 0x130 (by decide)) (hspecial 0x131 (by decide))
  · exact hspecial 0x17F (by decide) h3
  · exact hspecial 0x212A (by decide) h4
  · exact h5.elim (hspecial 0x3A9 (by decide)) (hspecial 0x2126 (by decide))
  · rcases h with h | rfl | rfl
    · exact hascii h
    · decide
    · decide

theorem isUnitChar_of_folded {w : PyStr} (hw : folded w ∈ unitTable.map Prod.fst) :
    ∀ c ∈ w, isUnitChar c = true := by
  have htable : ((unitTable.map Prod.fst).all fun f ↦ f.all fun y ↦
      decide (y.val < 128 ∨ y = 0xB0 ∨ y = 0x3C9)) = true := by
    decide
  intro c hc
  have hchar := List.all_eq_true.mp (List.all_eq_true.mp htable _ hw) _ (List.mem_map_of_mem hc)
  exact isUnitChar_of_fold (of_decide_eq_true hchar)

end

/-! ## Ohms -/

/-- A character whatever its case. -/
def foldedOne (c : CodePoint) : CharClass := ⟨false, [.one c], true⟩

def prefixClass : CharClass := ⟨false, [.one 107, .one 75, .one 109, .one 77], true⟩

/-- `(?:ω|ohms?)`. -/
def ohmWord : Pattern :=
  .alt (.seq (.char (foldedOne 0x3C9)) .eps) (.seq (.char (foldedOne 111)) (.seq (.char (foldedOne 104))
    (.seq (.char (foldedOne 109)) (.seq (.rep true 0 (some 1) (.char (foldedOne 115))) .eps))))

def ohmWords : List PyStr := [py "ω", py "ohm", py "ohms"]

omit [Unicode] in
theorem ohmWords_eq : ohmWords = [[0x3C9], [111, 104, 109], [111, 104, 109, 115]] := rfl

omit [Unicode] in
theorem ohmUnit_eq : ohmUnit =
    .seq (.group 1 (.seq (.rep true 0 (some 1) (.char prefixClass)) .eps)) (.seq ohmWord .eps) := by
  rw [ohmUnit, re]
  decide

theorem foldedOne_accepts (c x : CodePoint) : sre.accepts (foldedOne c) x = true ↔ foldCase x = foldCase c := by
  simp [sre, foldedOne, CharClass.accepts, Item.accepts]

theorem prefixClass_accepts (x : CodePoint) :
    sre.accepts prefixClass x = true ↔ foldCase x = 107 ∨ foldCase x = 109 := by
  have hk : foldCase 75 = 107 := rfl
  have hm : foldCase 77 = 109 := rfl
  have hk' : foldCase 107 = 107 := rfl
  have hm' : foldCase 109 = 109 := rfl
  simp [sre, prefixClass, CharClass.accepts, Item.accepts, hk, hm, hk', hm']

/-- A prefix of ohms or none. -/
def OhmPrefix (p : PyStr) : Prop := p = [] ∨ ∃ c, p = [c] ∧ (foldCase c = 107 ∨ foldCase c = 109)

theorem mem_run_ohmWord {v rest : PyStr} (hv : folded v ∈ ohmWords) (before : PyStr)
    (groups : List (ℕ × PyStr)) :
    (⟨before, v ++ rest, groups⟩ : State CodePoint).past v rest ∈ run sre ohmWord ⟨before, v ++ rest, groups⟩ := by
  have hone : ∀ {q : Pattern} {c x : CodePoint} {b more : PyStr} {t : State CodePoint}, foldCase x = foldCase c →
      t ∈ run sre q ⟨x :: b, more, groups⟩ →
      t ∈ run sre (.seq (.char (foldedOne c)) q) ⟨b, x :: more, groups⟩ := by
    intro q c x b more t hx ht
    exact mem_run_seq.mpr ⟨_, mem_run_char.mpr ⟨x, more, rfl, (foldedOne_accepts c x).mpr hx, rfl⟩, ht⟩
  have hwords : folded v = [0x3C9] ∨ folded v = [111, 104, 109] ∨ folded v = [111, 104, 109, 115] := by
    simpa [ohmWords_eq] using hv
  rw [ohmWord, mem_run_alt]
  rcases hwords with h | h | h
  · obtain ⟨a, v, rfl, ha, hv⟩ := List.map_eq_cons_iff.mp h
    obtain rfl := List.map_eq_nil_iff.mp hv
    exact Or.inl (hone ha (mem_run_eps.mpr rfl))
  · obtain ⟨a, v, rfl, ha, hv⟩ := List.map_eq_cons_iff.mp h
    obtain ⟨b, v, rfl, hb, hv⟩ := List.map_eq_cons_iff.mp hv
    obtain ⟨c, v, rfl, hc, hv⟩ := List.map_eq_cons_iff.mp hv
    obtain rfl := List.map_eq_nil_iff.mp hv
    refine Or.inr (hone ha (hone hb (hone hc (mem_run_seq.mpr ⟨_, ?_, mem_run_eps.mpr rfl⟩))))
    exact mem_run_rep_char.mpr ⟨[], rest, rfl, nofun, le_rfl, fun k _ ↦ Nat.zero_le k, rfl⟩
  · obtain ⟨a, v, rfl, ha, hv⟩ := List.map_eq_cons_iff.mp h
    obtain ⟨b, v, rfl, hb, hv⟩ := List.map_eq_cons_iff.mp hv
    obtain ⟨c, v, rfl, hc, hv⟩ := List.map_eq_cons_iff.mp hv
    obtain ⟨d, v, rfl, hd, hv⟩ := List.map_eq_cons_iff.mp hv
    obtain rfl := List.map_eq_nil_iff.mp hv
    refine Or.inr (hone ha (hone hb (hone hc (mem_run_seq.mpr ⟨_, ?_, mem_run_eps.mpr rfl⟩))))
    refine mem_run_rep_char.mpr ⟨[d], rest, rfl, ?_, Nat.zero_le 1, fun k hk ↦ ?_, rfl⟩
    · exact List.forall_mem_singleton.mpr ((foldedOne_accepts 115 d).mpr hd)
    · rw [← Option.some.inj hk]
      rfl

/-- What the pattern of ohms reads of a text without white space. -/
theorem ohm_parts {w : PyStr} (hw : Black w) {t : State CodePoint} (ht : t ∈ run sre ohmUnit ⟨[], w, []⟩)
    (hend : t.after = []) : ∃ p v, w = p ++ v ∧ OhmPrefix p ∧ folded v ∈ ohmWords ∧ t.groups = [(1, p)] := by
  rw [ohmUnit_eq] at ht
  obtain ⟨v₁, hv₁, ht⟩ := mem_run_seq.mp ht
  obtain ⟨w₁, hw₁, rfl⟩ := mem_run_group.mp hv₁
  obtain ⟨x₁, hx₁, hxw⟩ := mem_run_seq.mp hw₁
  obtain rfl := mem_run_eps.mp hxw
  obtain ⟨p, rest, hp, hinit, -, hone, rfl⟩ := mem_run_rep_char.mp hx₁
  obtain ⟨v₂, hv₂, ht⟩ := mem_run_seq.mp ht
  obtain rfl := mem_run_eps.mp ht
  obtain rfl : w = p ++ rest := hp
  have hwords : (spellings spellClass ohmWord).any (fun words ↦
      words.all fun u ↦ decide (u ∈ ohmWords)) = true := by decide
  obtain ⟨v, hv, hmem⟩ := folded_mem_of_run hwords hv₂
  rw [hend, List.append_nil] at hv
  obtain rfl : rest = v := hv
  have hblack : visible rest = rest := by
    rw [visible, List.filter_eq_self]
    exact fun c hc ↦ by simp [hw c (List.mem_append_right p hc)]
  rw [hblack] at hmem
  refine ⟨p, rest, rfl, ?_, hmem, ?_⟩
  · rcases p with _ | ⟨c, _ | ⟨d, p⟩⟩
    · exact Or.inl rfl
    · exact Or.inr ⟨c, rfl, (prefixClass_accepts c).mp (hinit c List.mem_cons_self)⟩
    · have htwo := hone 1 rfl
      rw [List.length_cons, List.length_cons] at htwo
      omega
  · have hcapture : captureless ohmWord = true := rfl
    rw [run_captureless hcapture _ _ hv₂]
    simp [State.upTo, State.past]

omit [Unicode] in
/-- The prefix of ohms is what stands in front of their word. -/
theorem ohm_unique {p p' v v' : PyStr} (h : p ++ v = p' ++ v') (hp : OhmPrefix p) (hp' : OhmPrefix p')
    (hv : folded v ∈ ohmWords) (hv' : folded v' ∈ ohmWords) : p = p' := by
  have hhead : ∀ {c : CodePoint} {u : PyStr}, foldCase c = 107 ∨ foldCase c = 109 →
      folded (c :: u) ∈ ohmWords → False := by
    intro c u hc hu
    have hwords : folded (c :: u) = [0x3C9] ∨ folded (c :: u) = [111, 104, 109] ∨
        folded (c :: u) = [111, 104, 109, 115] := by
      simpa [ohmWords_eq] using hu
    rw [folded, List.map_cons] at hwords
    rcases hwords with hw | hw | hw <;> rw [(List.cons_eq_cons.mp hw).1] at hc <;> revert hc <;> decide
  rcases hp with rfl | ⟨c, rfl, hc⟩ <;> rcases hp' with rfl | ⟨d, rfl, hd⟩
  · rfl
  · obtain rfl : v = d :: v' := h
    exact (hhead hd hv).elim
  · obtain rfl : c :: v = v' := h
    exact (hhead hc hv').elim
  · rw [(List.cons_eq_cons.mp h).1]

/-- A text without white space is read as ohms where it is a word for them, with its prefix. -/
theorem ohm_fullmatch {p v : PyStr} (hw : Black (p ++ v)) (hp : OhmPrefix p) (hv : folded v ∈ ohmWords) :
    ∃ m, reFullmatch ohmUnit (p ++ v) = some m ∧ groupText m 1 = p := by
  have hinit : (⟨p.reverse, v, [(1, p)]⟩ : State CodePoint) ∈
      run sre (.group 1 (.seq (.rep true 0 (some 1) (.char prefixClass)) .eps)) ⟨[], p ++ v, []⟩ := by
    have hread : (⟨[], p ++ v, []⟩ : State CodePoint).past p v ∈
        run sre (.rep true 0 (some 1) (.char prefixClass) : Pattern) ⟨[], p ++ v, []⟩ := by
      refine mem_run_rep_char.mpr ⟨p, v, rfl, ?_, Nat.zero_le _, fun k hk ↦ ?_, rfl⟩
      · rcases hp with rfl | ⟨c, rfl, hc⟩
        · nofun
        · exact List.forall_mem_singleton.mpr ((prefixClass_accepts c).mpr hc)
      · rw [← Option.some.inj hk]
        rcases hp with rfl | ⟨c, rfl, -⟩
        · exact Nat.zero_le 1
        · rfl
    refine mem_run_group.mpr ⟨_, mem_run_seq.mpr ⟨_, hread, mem_run_eps.mpr rfl⟩, ?_⟩
    simp [State.upTo, State.past]
  have hrun : ∃ t ∈ run sre ohmUnit ⟨[], p ++ v, []⟩, t.after.isEmpty = true := by
    have hword := @mem_run_ohmWord _ _ [] hv p.reverse [(1, p)]
    rw [List.append_nil] at hword
    rw [ohmUnit_eq]
    exact ⟨_, mem_run_seq.mpr ⟨_, hinit, mem_run_seq.mpr ⟨_, hword, mem_run_eps.mpr rfl⟩⟩, rfl⟩
  obtain ⟨t, ht⟩ := Option.isSome_iff_exists.mp (List.find?_isSome.mpr hrun)
  have hend := List.find?_some ht
  rw [List.isEmpty_iff] at hend
  obtain ⟨p', v', hsplit, hp', hv', hgroups⟩ := ohm_parts hw (List.mem_of_find?_eq_some ht) hend
  refine ⟨_, congrArg (Option.map _) ht, ?_⟩
  rw [ohm_unique hsplit hp hp' hv hv']
  simp [groupText, Match.group, Found.group, hgroups]

theorem ohm_none {w : PyStr} (hw : Black w) (h : ∀ p v, w = p ++ v → OhmPrefix p → folded v ∉ ohmWords) :
    reFullmatch ohmUnit w = none := by
  rw [reFullmatch, Option.map_eq_none_iff, List.find?_eq_none]
  intro t ht hend
  obtain ⟨p, v, hsplit, hp, hv, -⟩ := ohm_parts hw ht (List.isEmpty_iff.mp hend)
  exact h p v hsplit hp hv

/-! ## Kinds -/

/-- The kind of a unit in small letters that is not one of ohms, if there is one by a name. -/
def kindOption (lower : PyStr) : Option PyStr :=
  if startsWith (py "%") lower then some (py "percent")
  else match degreeKind lower with
  | some kind => some kind
  | none =>
    if lower ∈ [py "k", py "°k", py "degk", py "degreek", py "degreesk"] then some (py "K")
    else if lower = py "mm/s" then some (py "mm/s")
    else unitNames.lookup lower

def ohmKind (p : PyStr) : PyStr := (ohmPrefixes.lookup p).getD (p ++ py "Ohm")

/-- The kind of a unit, from its small letters and its match as ohms. -/
def kindWith (unit lower : PyStr) (ohms : Option Match) : PyStr :=
  if startsWith (py "%") lower then py "percent"
  else match degreeKind lower with
  | some kind => kind
  | none =>
    if lower ∈ [py "k", py "°k", py "degk", py "degreek", py "degreesk"] then py "K"
    else match ohms with
    | some ohms => ohmKind (groupText ohms 1)
    | none =>
      if lower = py "mm/s" then py "mm/s"
      else (unitNames.lookup lower).getD unit

omit [Unicode] in
theorem kindWith_none (unit lower : PyStr) : kindWith unit lower none = (kindOption lower).getD unit := by
  unfold kindWith kindOption
  by_cases hpercent : startsWith (py "%") lower = true
  · rw [if_pos hpercent, if_pos hpercent]
    rfl
  · rw [if_neg hpercent, if_neg hpercent]
    cases degreeKind lower with
    | some kind => rfl
    | none =>
      simp only
      split_ifs <;> rfl

omit [Unicode] in
theorem kindWith_some {unit lower : PyStr} (m : Match) (h : kindOption lower = none) :
    kindWith unit lower (some m) = ohmKind (groupText m 1) := by
  unfold kindOption at h
  unfold kindWith
  by_cases hpercent : startsWith (py "%") lower = true
  · rw [if_pos hpercent] at h
    cases h
  · rw [if_neg hpercent] at h ⊢
    cases hdegree : degreeKind lower with
    | some kind =>
      rw [hdegree] at h
      cases h
    | none =>
      rw [hdegree] at h
      simp only at h ⊢
      split_ifs at h with hkelvin hspeed
      rw [if_neg hkelvin]

variable [Casing]

theorem unitKind_eq (raw : PyStr) : unitKind raw =
    kindWith (visible raw) (Casing.lower (visible raw)) (reFullmatch ohmUnit (visible raw)) := by
  unfold unitKind
  rw [squeeze_empty, visible_strip]
  rfl

/-! ### The kinds of the words -/

section Words

omit [Unicode] [Casing]

/-- Whether a word is one of ohms. -/
def isOhm (e : PyStr × (Base × Bool)) : Bool := e.2.1 = .ohm

/-- A word that is no ohm has one kind, whichever of its small forms that one is found by; where it has a
prefix it is found by one of them alone. -/
theorem kindOption_lowerings : (unitTable.all fun e ↦ isOhm e || (loweringsOf e.1).all fun l ↦
    decide (kindOption l = kindOption e.1 ∧ (kindOption l).isSome = true ∧ (e.2.2 = true → l = e.1)) ||
      decide (kindOption l = none ∧ l ≠ e.1)) = true := by
  decide

theorem kindOption_ohm : (unitTable.all fun e ↦ !isOhm e || (loweringsOf e.1).all fun l ↦
    decide (kindOption l = none)) = true := by
  decide

/-- Words of one kind have one base, and are one word where they have a prefix. -/
theorem kindOption_injective : (unitTable.all fun e ↦ unitTable.all fun f ↦ isOhm e || isOhm f ||
    decide (kindOption e.1 = kindOption f.1 → e.2 = f.2 ∧ (e.2.2 = true → e.1 = f.1))) = true := by
  decide

theorem lookup_unitTable : (unitTable.all fun e ↦ decide (unitTable.lookup e.1 = some e.2)) = true := by
  decide

/-- The words of ohms with a prefix. -/
def prefixedOhms : List PyStr := ohmWords.map (107 :: ·) ++ ohmWords.map (109 :: ·)

theorem words_of_ohm : (unitTable.all fun e ↦
    if isOhm e then decide (e.2.2 = false ∧ e.1 ∈ ohmWords ∨ e.2.2 = true ∧ e.1 ∈ prefixedOhms)
    else decide (e.1 ∉ ohmWords ∧ e.1 ∉ prefixedOhms)) = true := by
  decide

/-- The prefixes of ohms as they can be written: none, a `k`, and an `m`. -/
def ohmPrefixTexts : List PyStr := [[], [107], [75], [0x212A], [109], [77]]

/-- The scale of a prefix or of none. -/
def scaleOfPrefix : PyStr → Scale
  | [] => .one
  | c :: _ => scaleOf c

theorem ohmKind_injective : (ohmPrefixTexts.all fun p ↦ ohmPrefixTexts.all fun q ↦
    decide (ohmKind p = ohmKind q → scaleOfPrefix p = scaleOfPrefix q)) = true := by
  decide

theorem ohmKind_regular : (ohmPrefixTexts.all fun p ↦ (ohmKind p).all fun c ↦ !isOdd c) = true := by
  decide

theorem kindOption_ne_ohmKind : (unitTable.all fun e ↦ isOhm e || (ohmPrefixTexts.all fun p ↦
    decide (kindOption e.1 ≠ some (ohmKind p)))) = true := by
  decide

theorem kindOption_regular : (unitTable.all fun e ↦ ((kindOption e.1).getD []).all fun c ↦ !isOdd c) = true := by
  decide

/-- The units whose prefix `m` is not told from a capital one. -/
def caseWords : List PyStr := [py "mm", py "mm/s", py "mbar", py "mpa", py "ma", py "mv"]

theorem caseWords_lowerings : (unitTable.all fun e ↦ (loweringsOf e.1).all fun l ↦
    decide (l ∈ caseWords → e.1 = l ∧ isOhm e = false ∧ e.2.2 = true ∧ (kindOption l).isSome = true)) = true := by
  decide

theorem mem_caseWords : (unitTable.all fun e ↦ isOhm e || !e.2.2 ||
    decide (e.1.head? = some 109 → e.1 ∈ caseWords)) = true := by
  decide

theorem caseWords_head : (caseWords.all fun f ↦ decide (f.head? = some 109)) = true := by
  decide

theorem foldCase_eq_m {c : CodePoint} (h : foldCase c = 109) : c = 109 ∨ c = 77 := by
  unfold foldCase at h
  split_ifs at h with h1
  · right
    have hval := congrArg Fin.val h
    have h109 : (109 : CodePoint).val = 109 := rfl
    simp only [h109] at hval
    apply Fin.ext
    change c.val = 77
    omega
  all_goals first | exact Or.inl h | exact absurd h (by decide)

theorem foldCase_eq_k {c : CodePoint} (h : foldCase c = 107) : c = 107 ∨ c = 75 ∨ c = 0x212A := by
  unfold foldCase at h
  split_ifs at h with h1 h2 h3 h4
  · refine Or.inr (Or.inl ?_)
    have hval := congrArg Fin.val h
    have h107 : (107 : CodePoint).val = 107 := rfl
    simp only [h107] at hval
    apply Fin.ext
    change c.val = 75
    omega
  · exact absurd h (by decide)
  · exact absurd h (by decide)
  · exact Or.inr (Or.inr (Fin.ext h4))
  · exact absurd h (by decide)
  · exact Or.inl h

theorem OhmPrefix.mem {p : PyStr} (h : OhmPrefix p) : p ∈ ohmPrefixTexts := by
  rcases h with rfl | ⟨c, rfl, hk | hm⟩
  · decide
  · rcases foldCase_eq_k hk with rfl | rfl | rfl <;> decide
  · rcases foldCase_eq_m hm with rfl | rfl <;> decide

/-- Of a prefix other than `m` the case does not matter. -/
theorem scaleOf_congr {c d : CodePoint} (h : foldCase c = foldCase d) (hm : foldCase c ≠ 109) :
    scaleOf c = scaleOf d := by
  have hother : ∀ {x : CodePoint}, foldCase x ≠ 109 → scaleOf x = if foldCase x = 107 then .kilo else .hecto := by
    intro x hx
    have h109 : x ≠ 109 := by
      rintro rfl
      exact hx rfl
    have h77 : x ≠ 77 := by
      rintro rfl
      exact hx rfl
    rw [scaleOf, if_neg h109, if_neg h77]
  rw [hother hm, hother (h ▸ hm), h]

end Words

/-- How the kind of a unit without white space comes about. -/
inductive KindIs (w kind : PyStr) : Prop
  | named (e : PyStr × (Base × Bool)) (he : e ∈ unitTable) (hohm : isOhm e = false) (hw : folded w = e.1)
      (hkind : kindOption e.1 = some kind) (hlower : e.2.2 = true → Casing.lower w = e.1)
  | ohm (p v : PyStr) (hw : w = p ++ v) (hp : OhmPrefix p) (hv : folded v ∈ ohmWords) (hkind : kind = ohmKind p)
  | odd (hkind : kind = w) (hodd : ∃ c ∈ w, isOdd c = true)

omit [Unicode] in
theorem lower_mem (hlower : LowersUnits inferInstance) {w : PyStr} (hw : folded w ∈ unitTable.map Prod.fst) :
    Casing.lower w ∈ loweringsOf (folded w) := by
  rw [hlower.lower w (isUnitChar_of_folded hw)]
  exact flatMap_lowerChar_mem (isUnitChar_of_folded hw)

omit [Unicode] in
theorem exists_odd (hlower : LowersUnits inferInstance) {w : PyStr} (hw : folded w ∈ unitTable.map Prod.fst)
    (hne : Casing.lower w ≠ folded w) : ∃ c ∈ w, isOdd c = true := by
  by_contra hno
  push_neg at hno
  refine hne ?_
  rw [hlower.lower w (isUnitChar_of_folded hw)]
  exact flatMap_lowerChar_regular (isUnitChar_of_folded hw) fun c hc ↦ by simpa using hno c hc

omit [Unicode] [Casing] in
theorem black_visible (s : PyStr) : Black (visible s) := by
  intro c hc
  have hkept := (List.mem_filter.mp hc).2
  simpa using hkept

omit [Unicode] [Casing] in
/-- A text that is ohms without its case is a prefix and their word. -/
theorem folded_ohm {w : PyStr} (h : folded w ∈ ohmWords ∨ folded w ∈ prefixedOhms) :
    ∃ p v, w = p ++ v ∧ OhmPrefix p ∧ folded v ∈ ohmWords := by
  rcases h with h | h
  · exact ⟨[], w, rfl, Or.inl rfl, h⟩
  · have hsplit : ∀ y : CodePoint, folded w ∈ ohmWords.map (y :: ·) → y = 107 ∨ y = 109 →
        ∃ p v, w = p ++ v ∧ OhmPrefix p ∧ folded v ∈ ohmWords := by
      intro y hy hk
      obtain ⟨f, hf, hfw⟩ := List.mem_map.mp hy
      obtain ⟨c, v, rfl, hc, hv⟩ := List.map_eq_cons_iff.mp hfw.symm
      refine ⟨[c], v, rfl, Or.inr ⟨c, rfl, hc.symm ▸ hk⟩, ?_⟩
      rwa [folded, hv]
    rcases List.mem_append.mp h with h | h
    · exact hsplit 107 h (Or.inl rfl)
    · exact hsplit 109 h (Or.inr rfl)

omit [Unicode] [Casing] in
theorem folded_of_parts {p v : PyStr} (hp : OhmPrefix p) (hv : folded v ∈ ohmWords) :
    folded (p ++ v) ∈ ohmWords ∨ folded (p ++ v) ∈ prefixedOhms := by
  rcases hp with rfl | ⟨c, rfl, hk | hm⟩
  · exact Or.inl hv
  · refine Or.inr (List.mem_append_left _ (List.mem_map.mpr ⟨folded v, hv, ?_⟩))
    rw [← hk]
    rfl
  · refine Or.inr (List.mem_append_right _ (List.mem_map.mpr ⟨folded v, hv, ?_⟩))
    rw [← hm]
    rfl

/-- The kind of a unit that is no ohm is found by its small letters. -/
theorem unitKind_plain {raw : PyStr} {e : PyStr × (Base × Bool)} (he : e ∈ unitTable) (hohm : isOhm e = false)
    (hw : folded (visible raw) = e.1) :
    unitKind raw = (kindOption (Casing.lower (visible raw))).getD (visible raw) := by
  have hwords := List.all_eq_true.mp words_of_ohm e he
  rw [hohm, if_neg Bool.false_ne_true, decide_eq_true_eq, ← hw] at hwords
  have hnone : reFullmatch ohmUnit (visible raw) = none := by
    refine ohm_none (black_visible raw) fun p v hsplit hp hv ↦ ?_
    have hparts := folded_of_parts hp hv
    rw [← hsplit] at hparts
    exact hparts.elim hwords.1 hwords.2
  rw [unitKind_eq, hnone, kindWith_none]

/-- The kind of what the pattern of the units reads. -/
theorem kindIs (hlower : LowersUnits inferInstance) {raw : PyStr}
    (hraw : folded (visible raw) ∈ unitTable.map Prod.fst) : KindIs (visible raw) (unitKind raw) := by
  obtain ⟨e, he, hw⟩ := List.mem_map.mp hraw
  have hmem := lower_mem hlower hraw
  rw [← hw] at hmem
  cases hohm : isOhm e with
  | true =>
    have hwords := List.all_eq_true.mp words_of_ohm e he
    rw [hohm, if_pos rfl, decide_eq_true_eq] at hwords
    have hparts : folded (visible raw) ∈ ohmWords ∨ folded (visible raw) ∈ prefixedOhms := by
      rw [← hw]
      exact hwords.imp And.right And.right
    obtain ⟨p, v, hsplit, hp, hv⟩ := folded_ohm hparts
    obtain ⟨m, hm, hinit⟩ := ohm_fullmatch (hsplit ▸ black_visible raw) hp hv
    have hall := List.all_eq_true.mp kindOption_ohm e he
    rw [hohm, Bool.not_true, Bool.false_or, List.all_eq_true] at hall
    have hnone := of_decide_eq_true (hall _ hmem)
    rw [unitKind_eq]
    rw [hsplit] at hnone ⊢
    rw [hm, kindWith_some m hnone, hinit]
    exact .ohm p v rfl hp hv rfl
  | false =>
    have hall := List.all_eq_true.mp kindOption_lowerings e he
    rw [hohm, Bool.false_or, List.all_eq_true] at hall
    have hl := hall _ hmem
    rw [Bool.or_eq_true, decide_eq_true_eq, decide_eq_true_eq] at hl
    rw [unitKind_plain he hohm hw.symm]
    rcases hl with ⟨hsame, hsome, hscaled⟩ | ⟨hno, hne⟩
    · obtain ⟨kind, hkind⟩ := Option.isSome_iff_exists.mp hsome
      rw [hkind]
      exact .named e he hohm hw.symm (hsame.symm.trans hkind) hscaled
    · rw [hno]
      rw [hw] at hne
      exact .odd rfl (exists_odd hlower hraw hne)

/-- One of the units `mm`, `mm/s`, `mbar`, `mPa`, `mA` and `mV`, with a small `m` in front in one text and a
capital one in the other. -/
def PrefixCase (w v : PyStr) : Prop :=
  Casing.lower w ∈ caseWords ∧ Casing.lower v = Casing.lower w ∧ w.head? ≠ v.head?

omit [Unicode] [Casing] in
theorem measureOf_word {w : PyStr} {e : PyStr × (Base × Bool)} (he : e ∈ unitTable) (hw : folded w = e.1) :
    measureOf w = some (e.2.1, if e.2.2 then scaleOf (w.headD 0) else .one) := by
  have hlookup := of_decide_eq_true (List.all_eq_true.mp lookup_unitTable e he)
  rw [measureOf, hw, hlookup]
  rfl

omit [Unicode] [Casing] in
theorem measureOf_ohm {p v : PyStr} (hp : OhmPrefix p) (hv : folded v ∈ ohmWords) :
    measureOf (p ++ v) = some (.ohm, scaleOfPrefix p) := by
  have hbare : ∀ f ∈ ohmWords, unitTable.lookup f = some (.ohm, false) := by decide
  have hkilo : ∀ f ∈ ohmWords, unitTable.lookup (107 :: f) = some (.ohm, true) := by decide
  have hmilli : ∀ f ∈ ohmWords, unitTable.lookup (109 :: f) = some (.ohm, true) := by decide
  unfold measureOf
  rcases hp with rfl | ⟨c, rfl, hc⟩
  · rw [List.nil_append, hbare _ hv]
    rfl
  · have hfold : folded ([c] ++ v) = foldCase c :: folded v := rfl
    rw [hfold]
    rcases hc with hc | hc
    · rw [hc, hkilo _ hv]
      rfl
    · rw [hc, hmilli _ hv]
      rfl

omit [Unicode] [Casing] in
theorem head_of_folded {w : PyStr} {y : CodePoint} (h : (folded w).head? = some y) :
    ∃ c v, w = c :: v ∧ foldCase c = y := by
  cases w with
  | nil => cases h
  | cons c v => exact ⟨c, v, rfl, Option.some.inj h⟩

omit [Unicode] in
/-- Two named units of one kind mean the same, or differ in the case of an `m`. -/
theorem measure_of_named {w v : PyStr} {e f : PyStr × (Base × Bool)} (he : e ∈ unitTable) (hf : f ∈ unitTable)
    (hohm : isOhm e = false) (hohm' : isOhm f = false) (hw : folded w = e.1) (hv : folded v = f.1)
    (hkind : kindOption e.1 = kindOption f.1) (hlower : e.2.2 = true → Casing.lower w = e.1)
    (hlower' : f.2.2 = true → Casing.lower v = f.1) : measureOf w = measureOf v ∨ PrefixCase w v := by
  have hinjective := List.all_eq_true.mp (List.all_eq_true.mp kindOption_injective e he) f hf
  rw [hohm, hohm', Bool.false_or, Bool.false_or, decide_eq_true_eq] at hinjective
  obtain ⟨hsame, hword⟩ := hinjective hkind
  rw [measureOf_word he hw, measureOf_word hf hv, ← hsame]
  cases hscaled : e.2.2 with
  | false => exact Or.inl rfl
  | true =>
    have hcase := List.all_eq_true.mp mem_caseWords e he
    rw [hohm, hscaled, Bool.false_or, Bool.not_true, Bool.false_or, decide_eq_true_eq] at hcase
    have hwv : folded w = folded v := by rw [hw, hv, hword hscaled]
    cases w with
    | nil =>
      obtain rfl : v = [] := List.map_eq_nil_iff.mp hwv.symm
      exact Or.inl rfl
    | cons c w =>
      obtain ⟨d, v, rfl, hd⟩ := head_of_folded (w := v) (y := foldCase c) (by rw [← hwv]; rfl)
      by_cases hm : foldCase c = 109
      · by_cases hcd : c = d
        · subst hcd
          exact Or.inl rfl
        · refine Or.inr ⟨?_, ?_, fun h ↦ hcd (Option.some.inj h)⟩
          · rw [hlower hscaled]
            refine hcase ?_
            rw [← hw, ← hm]
            rfl
          · rw [hlower hscaled, hlower' (hsame ▸ hscaled), hword hscaled]
      · have hscale : scaleOf c = scaleOf d := scaleOf_congr hd.symm hm
        left
        simp only [List.headD_cons, hscale]

/-- Units of one kind mean the same, or differ in the case of an `m` alone. -/
theorem measure_of_kind {w v kind : PyStr} (hw : KindIs w kind) (hv : KindIs v kind) :
    measureOf w = measureOf v ∨ PrefixCase w v := by
  -- A kind by a name is none of ohms, and neither has a letter that only passes for another.
  have hnamed_ohm : ∀ {e : PyStr × (Base × Bool)} {p : PyStr}, e ∈ unitTable → isOhm e = false →
      OhmPrefix p → kindOption e.1 ≠ some (ohmKind p) := by
    intro e p he hohm hp
    have hall := List.all_eq_true.mp kindOption_ne_ohmKind e he
    rw [hohm, Bool.false_or, List.all_eq_true] at hall
    exact of_decide_eq_true (hall p hp.mem)
  have hnamed_odd : ∀ {e : PyStr × (Base × Bool)} {u : PyStr}, e ∈ unitTable → kindOption e.1 = some u →
      ¬ ∃ c ∈ u, isOdd c = true := by
    rintro e u he hkind ⟨c, hc, hodd⟩
    have hall := List.all_eq_true.mp kindOption_regular e he
    rw [hkind, Option.getD_some, List.all_eq_true] at hall
    have hregular := hall c hc
    rw [hodd] at hregular
    cases hregular
  have hohm_odd : ∀ {p : PyStr}, OhmPrefix p → ¬ ∃ c ∈ ohmKind p, isOdd c = true := by
    rintro p hp ⟨c, hc, hodd⟩
    have hregular := List.all_eq_true.mp (List.all_eq_true.mp ohmKind_regular p hp.mem) c hc
    rw [hodd] at hregular
    cases hregular
  cases hw with
  | named e he hohm hwe hkind hlower =>
    cases hv with
    | named f hf hohm' hvf hkind' hlower' =>
      exact measure_of_named he hf hohm hohm' hwe hvf (hkind.trans hkind'.symm) hlower hlower'
    | ohm p u hsplit hp hu hk => exact absurd (hk ▸ hkind) (hnamed_ohm he hohm hp)
    | odd hk hodd => exact absurd (hk ▸ hodd) (hnamed_odd he hkind)
  | ohm p u hsplit hp hu hk =>
    cases hv with
    | named f hf hohm' hvf hkind' hlower' => exact absurd (hk ▸ hkind') (hnamed_ohm hf hohm' hp)
    | ohm q x hsplit' hq hx hk' =>
      have hall := List.all_eq_true.mp (List.all_eq_true.mp ohmKind_injective p hp.mem) q hq.mem
      left
      rw [hsplit, hsplit', measureOf_ohm hp hu, measureOf_ohm hq hx,
        of_decide_eq_true hall (hk.symm.trans hk')]
    | odd hk' hodd => exact absurd (hk ▸ hk' ▸ hodd) (hohm_odd hp)
  | odd hk hodd =>
    cases hv with
    | named f hf hohm' hvf hkind' hlower' => exact absurd (hk ▸ hodd) (hnamed_odd hf hkind')
    | ohm p u hsplit hp hu hk' => exact absurd (hk' ▸ hk ▸ hodd) (hohm_odd hp)
    | odd hk' hodd' =>
      left
      rw [← hk, ← hk']

omit [Unicode] in
/-- The case of an `m` makes another unit. -/
theorem PrefixCase.measure_ne (hlower : LowersUnits inferInstance) {w v : PyStr}
    (hw : folded w ∈ unitTable.map Prod.fst) (hv : folded v ∈ unitTable.map Prod.fst) (h : PrefixCase w v) :
    measureOf w ≠ measureOf v := by
  obtain ⟨hcase, hsame, hhead⟩ := h
  have hword : ∀ {u : PyStr}, folded u ∈ unitTable.map Prod.fst → Casing.lower u = Casing.lower w →
      ∃ e ∈ unitTable, folded u = e.1 ∧ e.1 = Casing.lower w ∧ e.2.2 = true := by
    intro u hu hlu
    obtain ⟨e, he, heu⟩ := List.mem_map.mp hu
    have hmem := lower_mem hlower hu
    rw [← heu, hlu] at hmem
    obtain ⟨hfirst, -, hscaled, -⟩ :=
      of_decide_eq_true (List.all_eq_true.mp (List.all_eq_true.mp caseWords_lowerings e he) _ hmem) hcase
    exact ⟨e, he, heu.symm, hfirst, hscaled⟩
  obtain ⟨e, he, hwe, hew, hscaled⟩ := hword hw rfl
  obtain ⟨f, hf, hvf, hfw, hscaled'⟩ := hword hv hsame
  have hm := of_decide_eq_true (List.all_eq_true.mp caseWords_head _ hcase)
  obtain ⟨c, w', rfl, hc⟩ := head_of_folded (y := 109) (by rw [hwe, hew, hm])
  obtain ⟨d, v', rfl, hd⟩ := head_of_folded (y := 109) (by rw [hvf, hfw, hm])
  rw [measureOf_word he hwe, measureOf_word hf hvf, hscaled, hscaled', if_pos rfl, if_pos rfl]
  intro hequal
  have hscale : scaleOf c = scaleOf d := (Prod.mk.inj (Option.some.inj hequal)).2
  have hne : c ≠ d := fun hcd ↦ hhead (congrArg some hcd)
  rcases foldCase_eq_m hc with rfl | rfl <;> rcases foldCase_eq_m hd with rfl | rfl
  · exact hne rfl
  · exact absurd hscale (by decide)
  · exact absurd hscale (by decide)
  · exact hne rfl

/-- And makes no other kind. -/
theorem PrefixCase.kind_eq (hlower : LowersUnits inferInstance) {raw raw' : PyStr}
    (hraw : folded (visible raw) ∈ unitTable.map Prod.fst)
    (hraw' : folded (visible raw') ∈ unitTable.map Prod.fst) (h : PrefixCase (visible raw) (visible raw')) :
    unitKind raw = unitKind raw' := by
  obtain ⟨hcase, hsame, -⟩ := h
  have hkind : ∀ {u : PyStr}, folded (visible u) ∈ unitTable.map Prod.fst →
      Casing.lower (visible u) = Casing.lower (visible raw) →
      kindOption (Casing.lower (visible raw)) = some (unitKind u) := by
    intro u hu hlu
    obtain ⟨e, he, heu⟩ := List.mem_map.mp hu
    have hmem := lower_mem hlower hu
    rw [← heu, hlu] at hmem
    obtain ⟨-, hohm, -, hsome⟩ :=
      of_decide_eq_true (List.all_eq_true.mp (List.all_eq_true.mp caseWords_lowerings e he) _ hmem) hcase
    obtain ⟨kind, hk⟩ := Option.isSome_iff_exists.mp hsome
    rw [unitKind_plain he hohm heu.symm, hlu, hk]
    rfl
  exact Option.some.inj ((hkind hraw rfl).symm.trans (hkind hraw' hsame))

/-! ## The comparison -/

theorem parseQuantity_of_reSearch {text : PyStr} {m : Match} (h : reSearch QUANTITY text = some m) :
    ∃ x, parseQuantity text = some (x, unitKind (groupText m 3)) := by
  obtain ⟨prior, gap, gap', hfirst⟩ := firstQuantity_of_reSearch h
  obtain ⟨after, -, hparts⟩ := hfirst.parts
  obtain ⟨x, hx⟩ := hparts.isNumber.exists_floatOf
  refine ⟨if groupText m 1 = py "-" then x.neg else x, ?_⟩
  rw [parseQuantity, h]
  simp only [Option.bind_eq_bind, Option.bind_some, hx]
  rfl

theorem afterAdjustment_verdict (i : Instrument) (limit : Quantity) (c : Compared) :
    (afterAdjustment i limit c).verdict = c.verdict := by
  unfold afterAdjustment
  cases i.asLeft with
  | none => rfl
  | some left =>
    simp only
    split_ifs <;> rfl

/-- The verdict on two quantities that were read. -/
theorem verdict_of_quantities {i : Instrument} {found limit : Quantity} (hfound : i.asFound = some found)
    (hlimit : i.tolerance = some limit) (placed : Placed) (notes : List PyStr) :
    (compare i placed notes).verdict = if found.2 ≠ limit.2 then .notComparable
      else if beyond found.1 limit.1 then .outOfTolerance else .inTolerance := by
  have hread : unreadableTexts i = [] := by
    rw [unreadableTexts, hfound, hlimit]
    simp
  unfold compare
  rw [hread, hfound, hlimit]
  simp only [List.isEmpty_nil, Bool.not_true, Bool.false_eq_true, if_false]
  split_ifs
  · rfl
  · rw [afterAdjustment_verdict]
  · rw [afterAdjustment_verdict]

theorem assess_tolerance {i : Instrument} {at_ : Date} {valves : Valves} {a : Assessment}
    (h : assess i at_ valves = some a) : ∃ placed notes, a.tolerance = (compare i placed notes).verdict := by
  unfold assess at h
  obtain ⟨computed, -, h⟩ := Option.bind_eq_some_iff.mp h
  obtain rfl := Option.some.inj h
  exact ⟨_, _, rfl⟩

/-- The unit of the first quantity of a text, and the text from it on. -/
def statedUnit (text : PyStr) : Option (PyStr × PyStr) :=
  (reSearch QUANTITY text).map fun m ↦ (groupText m 3, groupText m 3 ++ m.found.stop.after)

omit [Unicode] [Casing] in
/-- A percentage. -/
def IsPercent (u : PyStr × PyStr) : Prop := (measureOf (visible u.1)).map Prod.fst = some .percent

/-- The two are stated in the same unit with the same prefix and, of percentages, on the same basis, where
`basis` says what a percentage is of by the text that begins with its sign. -/
structure Alike {γ : Type} (basis : PyStr → γ) (u v : PyStr × PyStr) : Prop where
  measure : measureOf (visible u.1) = measureOf (visible v.1)
  basis : IsPercent u → basis u.2 = basis v.2

/-- Percentages of different things, or a unit with a small `m` in front and with a capital one. -/
def Confused {γ : Type} (basis : PyStr → γ) (u v : PyStr × PyStr) : Prop :=
  IsPercent u ∧ IsPercent v ∧ basis u.2 ≠ basis v.2 ∨ PrefixCase (visible u.1) (visible v.1)

theorem kindOption_percent : (unitTable.all fun e ↦ !decide (e.2.1 = .percent) || (loweringsOf e.1).all fun l ↦
    decide (kindOption l = some (py "percent"))) = true := by
  decide

/-- All percentages are of one kind. -/
theorem unitKind_percent (hlower : LowersUnits inferInstance) {u : PyStr × PyStr}
    (hu : folded (visible u.1) ∈ unitTable.map Prod.fst) (h : IsPercent u) : unitKind u.1 = py "percent" := by
  obtain ⟨e, he, hw⟩ := List.mem_map.mp hu
  have hmem := lower_mem hlower hu
  rw [← hw] at hmem
  have hbase : e.2.1 = .percent := by
    unfold IsPercent at h
    rw [measureOf_word he hw.symm] at h
    exact Option.some.inj h
  have hohm : isOhm e = false := by
    rw [isOhm, hbase]
    rfl
  have hall := List.all_eq_true.mp kindOption_percent e he
  rw [hbase, decide_eq_true rfl, Bool.not_true, Bool.false_or, List.all_eq_true] at hall
  rw [unitKind_plain he hohm hw.symm, of_decide_eq_true (hall _ hmem)]
  rfl

/-- What a stated unit is, and the kind of the quantity that is read. -/
theorem statedUnit_quantity {text : PyStr} {u : PyStr × PyStr} (h : statedUnit text = some u) :
    folded (visible u.1) ∈ unitTable.map Prod.fst ∧ ∃ x, parseQuantity text = some (x, unitKind u.1) := by
  obtain ⟨m, hm, rfl⟩ := Option.map_eq_some_iff.mp h
  obtain ⟨prior, gap, gap', hfirst⟩ := firstQuantity_of_reSearch hm
  obtain ⟨after, -, hparts⟩ := hfirst.parts
  exact ⟨folded_of_unitBetween hparts.isUnit, parseQuantity_of_reSearch hm⟩

/-- Confused units are of one kind. -/
theorem Confused.kind_eq (hlower : LowersUnits inferInstance) {γ : Type} {basis : PyStr → γ}
    {u v : PyStr × PyStr} (hu : folded (visible u.1) ∈ unitTable.map Prod.fst)
    (hv : folded (visible v.1) ∈ unitTable.map Prod.fst) (h : Confused basis u v) :
    unitKind u.1 = unitKind v.1 := by
  rcases h with ⟨hpu, hpv, -⟩ | hcase
  · rw [unitKind_percent hlower hu hpu, unitKind_percent hlower hv hpv]
  · exact hcase.kind_eq hlower hu hv

/-- And nothing that they say alike. -/
theorem Confused.not_alike (hlower : LowersUnits inferInstance) {γ : Type} {basis : PyStr → γ}
    {u v : PyStr × PyStr} (hu : folded (visible u.1) ∈ unitTable.map Prod.fst)
    (hv : folded (visible v.1) ∈ unitTable.map Prod.fst) (h : Confused basis u v) : ¬ Alike basis u v := by
  intro halike
  rcases h with ⟨hpu, -, hne⟩ | hcase
  · exact hne (halike.basis hpu)
  · exact hcase.measure_ne hlower hu hv halike.measure

/-- Units of one kind that are not confused are alike. -/
theorem alike_of_kind_eq (hlower : LowersUnits inferInstance) {γ : Type} {basis : PyStr → γ}
    {u v : PyStr × PyStr} (hu : folded (visible u.1) ∈ unitTable.map Prod.fst)
    (hv : folded (visible v.1) ∈ unitTable.map Prod.fst) (hkind : unitKind u.1 = unitKind v.1)
    (h : ¬ Confused basis u v) : Alike basis u v := by
  have hmeasure : measureOf (visible u.1) = measureOf (visible v.1) :=
    (measure_of_kind (hkind ▸ kindIs hlower hu) (kindIs hlower hv)).resolve_right fun hcase ↦ h (Or.inr hcase)
  refine ⟨hmeasure, fun hpu ↦ ?_⟩
  by_contra hne
  have hpv : IsPercent v := by
    unfold IsPercent at hpu ⊢
    rw [← hmeasure]
    exact hpu
  exact h (Or.inl ⟨hpu, hpv, hne⟩)

/-- The texts of a row are those that its quantities are read from. -/
theorem instrumentFromCells_texts {tag : PyStr} {cells : List PyStr} {columns : List (Column × ℕ)}
    {dayFirst : Bool} {months : ℤ} {i : Instrument}
    (h : instrumentFromCells tag cells columns dayFirst months = some i) :
    i.asFound = parseQuantity i.asFoundText ∧ i.tolerance = parseQuantity i.toleranceText := by
  unfold instrumentFromCells at h
  obtain ⟨interval, -, h⟩ := Option.bind_eq_some_iff.mp h
  obtain rfl := Option.some.inj h
  exact ⟨rfl, rfl⟩

/-- Only like is compared with like, unless percentages of different things meet or a small `m` and a
capital one; these are compared. -/
theorem only_like_compared {γ : Type} (basis : PyStr → γ) (hlower : LowersUnits inferInstance) {i : Instrument}
    {at_ : Date} {valves : Valves} {a : Assessment} (ha : assess i at_ valves = some a)
    (hfound : i.asFound = parseQuantity i.asFoundText) (hlimit : i.tolerance = parseQuantity i.toleranceText)
    {u v : PyStr × PyStr} (hu : statedUnit i.asFoundText = some u) (hv : statedUnit i.toleranceText = some v) :
    ((a.tolerance = .inTolerance ∨ a.tolerance = .outOfTolerance → Alike basis u v) ∧
      (¬ Alike basis u v → a.tolerance = .notComparable ∨ a.tolerance = .unreadable)) ↔
      ¬ Confused basis u v := by
  obtain ⟨hmemu, x, hx⟩ := statedUnit_quantity hu
  obtain ⟨hmemv, y, hy⟩ := statedUnit_quantity hv
  obtain ⟨placed, notes, hverdict⟩ := assess_tolerance ha
  rw [verdict_of_quantities (hfound.trans hx) (hlimit.trans hy)] at hverdict
  constructor
  · rintro ⟨hcompared, -⟩ hconfused
    have hkind := hconfused.kind_eq hlower hmemu hmemv
    rw [if_neg fun hne ↦ hne hkind] at hverdict
    refine hconfused.not_alike hlower hmemu hmemv (hcompared ?_)
    rw [hverdict]
    split_ifs
    · exact Or.inr rfl
    · exact Or.inl rfl
  · intro hconfused
    have halike : a.tolerance = .inTolerance ∨ a.tolerance = .outOfTolerance → Alike basis u v := by
      intro hcompared
      refine alike_of_kind_eq hlower hmemu hmemv ?_ hconfused
      by_contra hne
      rw [if_pos hne] at hverdict
      rw [hverdict] at hcompared
      rcases hcompared with h | h <;> cases h
    refine ⟨halike, fun hnot ↦ Or.inl ?_⟩
    rw [hverdict]
    split_ifs with hne hbeyond
    · rfl
    · rw [if_neg hne, if_pos hbeyond] at hverdict
      exact absurd (halike (Or.inr hverdict)) hnot
    · rw [if_neg hne, if_neg hbeyond] at hverdict
      exact absurd (halike (Or.inl hverdict)) hnot

omit [Unicode] [Casing] in
theorem lowerChar_ascii {c : CodePoint} (h : c.val < 128) :
    lowerChar c = [if 65 ≤ c.val ∧ c.val ≤ 90 then foldCase c else c] := by
  have hne : ∀ d : CodePoint, 128 ≤ d.val → c ≠ d := fun d hd hcd ↦ by
    rw [hcd] at h
    omega
  unfold lowerChar
  simp only [hne 0x3A9 (by decide), hne 0x2126 (by decide), hne 0x212A (by decide), hne 0x130 (by decide),
    or_false, if_false]
  split_ifs <;> rfl

omit [Unicode] [Casing] in
/-- A casing that knows ASCII and the letters of units. -/
def unitCasing : Casing where
  lower s := s.flatMap lowerChar
  upper s := s.map upperAscii
  lower_ascii s h := by
    induction s with
    | nil => rfl
    | cons c s ih =>
      rw [List.flatMap_cons, lowerChar_ascii (h c List.mem_cons_self),
        ih fun d hd ↦ h d (List.mem_cons_of_mem c hd)]
      rfl
  upper_ascii := asciiCasing.upper_ascii

/-- A gauge with an as-found error and a tolerance, calibrated in January. -/
def gauge (found limit : PyStr) : Instrument where
  tag := py "PT-1"
  parameter := []
  lastCal := parseDate (py "2026-01-05") true
  due := none
  interval := some (12, 0)
  tolerance := parseQuantity limit
  toleranceText := limit
  asFound := parseQuantity found
  asFoundText := found
  asLeft := none
  asLeftText := []
  uncertainty := none
  uncertaintyText := []
  certificate := []
  notes := []
  unreadableDates := []

def gaugeValves : Valves := ⟨30, 0, 12, true, .finite 4⟩

def gaugeDay : Date := (Date.make 2026 3 25).get (by decide)

/-- What a percentage is of: of a reading, or of something else. -/
def ofReading (text : PyStr) : Bool := (py "% of reading").isPrefixOf text

omit [Unicode] [Casing] in
theorem unitCasing_lowers : LowersUnits unitCasing := ⟨fun _ _ ↦ rfl⟩

omit [Unicode] [Casing] in
/-- Kilopascals are not compared with millipascals. -/
theorem only_like_compared_kilo : ∃ a,
    assess (@gauge asciiTables unitCasing (py "+1 kPa") (py "±2 mPa")) gaugeDay gaugeValves = some a ∧
      (((a.tolerance = .inTolerance ∨ a.tolerance = .outOfTolerance →
            Alike ofReading (py "kPa", py "kPa") (py "mPa", py "mPa")) ∧
          (¬ Alike ofReading (py "kPa", py "kPa") (py "mPa", py "mPa") →
            a.tolerance = .notComparable ∨ a.tolerance = .unreadable)) ↔
        ¬ @Confused unitCasing _ ofReading (py "kPa", py "kPa") (py "mPa", py "mPa")) := by
  obtain ⟨a, ha⟩ := Option.isSome_iff_exists.mp (show (assess
    (@gauge asciiTables unitCasing (py "+1 kPa") (py "±2 mPa")) gaugeDay gaugeValves).isSome = true by
    decide +kernel)
  exact ⟨a, ha, @only_like_compared asciiTables unitCasing _ ofReading unitCasing_lowers _ gaugeDay gaugeValves
    a ha rfl rfl _ _ (by decide +kernel) (by decide +kernel)⟩

omit [Unicode] [Casing] in
/-- An error of one megapascal is within a tolerance of two millipascals. -/
theorem mega_within_milli :
    @statedUnit asciiTables (py "+1 MPa") = some (py "MPa", py "MPa") ∧
      @statedUnit asciiTables (py "±2 mPa") = some (py "mPa", py "mPa") ∧
      (assess (@gauge asciiTables unitCasing (py "+1 MPa") (py "±2 mPa")) gaugeDay gaugeValves).map
        Assessment.tolerance = some .inTolerance ∧
      ¬ Alike ofReading (py "MPa", py "MPa") (py "mPa", py "mPa") :=
  ⟨by decide +kernel, by decide +kernel, by decide +kernel, fun h ↦ absurd h.measure (by decide +kernel)⟩

end FourCE.Calibration

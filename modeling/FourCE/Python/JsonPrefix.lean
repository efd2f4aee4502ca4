import FourCE.Python.JsonRoundTrip

/-!
# Truncated JSON

`json.loads` reads an object up to its closing brace and no further, so what it reads does not
change when the text goes on.  An object text cut short is therefore no JSON, and neither is one
with more text behind it.
-/

namespace FourCE.Python

/-! ## Texts that go on -/

/-- The text goes on, and not with anything a numeral could swallow. -/
def Bounded (r : PyStr) : Prop := r ≠ [] ∧ Stops r

theorem takeDigits_append_of {s r : PyStr} {ds : List (Fin 10)} (h : takeDigits s = (ds, r))
    (hr : r ≠ []) (z : PyStr) : takeDigits (s ++ z) = (ds, r ++ z) := by
  induction s generalizing ds with
  | nil =>
    rw [takeDigits, Prod.mk.injEq] at h
    exact absurd h.2.symm hr
  | cons c s ih =>
    rw [takeDigits] at h
    rw [List.cons_append, takeDigits]
    cases hc : digitOf c with
    | none =>
      simp only [hc, Prod.mk.injEq] at h
      obtain ⟨rfl, rfl⟩ := h
      rfl
    | some d =>
      simp only [hc, Prod.mk.injEq] at h
      obtain ⟨rfl, hrest⟩ := h
      have htail := @ih (takeDigits s).1 (by rw [← hrest])
      simp only [htail]

theorem takeNat_append_of {s r : PyStr} {n : ℕ} (h : takeNat s = some (n, r)) (hr : r ≠ [])
    (z : PyStr) : takeNat (s ++ z) = some (n, r ++ z) := by
  cases s with
  | nil => exact absurd h (by simp [takeNat])
  | cons c s =>
    rw [takeNat] at h
    rw [List.cons_append, takeNat]
    by_cases hc : c.val = 48
    · rw [if_pos hc, Option.some.injEq, Prod.mk.injEq] at h
      rw [if_pos hc, ← h.1, ← h.2]
    · rw [if_neg hc] at h ⊢
      cases hdigits : takeDigits (c :: s) with
      | mk ds rest =>
        rw [hdigits] at h
        cases ds with
        | nil => exact absurd h (by simp)
        | cons d ds =>
          simp only [Option.some.injEq, Prod.mk.injEq] at h
          obtain ⟨rfl, rfl⟩ := h
          have hlong := takeDigits_append_of hdigits hr z
          rw [List.cons_append] at hlong
          rw [hlong]

theorem takeFrac_append_of {s r : PyStr} {frac : Option Digits} (h : takeFrac s = (frac, r))
    {c : CodePoint} {t : PyStr} (hr : r = c :: t) (hc : c.val ≠ 46) (z : PyStr) :
    takeFrac (s ++ z) = (frac, r ++ z) := by
  subst hr
  cases s with
  | nil => exact absurd h (by simp [takeFrac])
  | cons b s =>
    rw [takeFrac] at h
    rw [List.cons_append, takeFrac]
    by_cases hb : b.val = 46
    · rw [if_pos hb] at h ⊢
      cases hdigits : takeDigits s with
      | mk ds rest =>
        rw [hdigits] at h
        cases ds with
        | nil =>
          simp only [Prod.mk.injEq, List.cons.injEq] at h
          exact absurd (h.2.1 ▸ hb) hc
        | cons d ds =>
          simp only [Prod.mk.injEq] at h
          obtain ⟨rfl, rfl⟩ := h
          rw [takeDigits_append_of hdigits (by simp) z]
    · rw [if_neg hb, Prod.mk.injEq] at h
      rw [if_neg hb, ← h.1, ← h.2, List.cons_append]

theorem takeSign_append_of {s : PyStr} (hs : s ≠ []) (z : PyStr) :
    takeSign (s ++ z) = ((takeSign s).1, (takeSign s).2 ++ z) := by
  cases s with
  | nil => exact absurd rfl hs
  | cons c s =>
    rw [List.cons_append, takeSign, takeSign]
    split_ifs <;> rfl

theorem takeExp_append_of {s r : PyStr} {exp : Option (Option Bool × Digits)}
    (h : takeExp s = (exp, r)) (hr : Bounded r) (z : PyStr) :
    takeExp (s ++ z) = (exp, r ++ z) := by
  cases s with
  | nil =>
    rw [takeExp, Prod.mk.injEq] at h
    exact absurd h.2.symm hr.1
  | cons b s =>
    rw [takeExp] at h
    rw [List.cons_append, takeExp]
    by_cases hb : (b.val = 101 || b.val = 69) = true
    · rw [if_pos hb] at h ⊢
      cases hdigits : takeDigits (takeSign s).2 with
      | mk ds rest =>
        rw [hdigits] at h
        cases ds with
        | nil =>
          simp only [Prod.mk.injEq] at h
          have hstop := hr.2 b s h.2.symm
          simp only [Bool.or_eq_true, decide_eq_true_eq] at hb
          omega
        | cons d ds =>
          simp only [Prod.mk.injEq] at h
          obtain ⟨rfl, rfl⟩ := h
          have hs : s ≠ [] := by
            rintro rfl
            exact absurd hdigits (by simp [takeSign, takeDigits])
          rw [takeSign_append_of hs, takeDigits_append_of hdigits hr.1 z]
    · rw [if_neg hb, Prod.mk.injEq] at h
      rw [if_neg hb, ← h.1, ← h.2, List.cons_append]

/-- What `takeExp` left is what it was given, unless that opened with an `e`. -/
theorem not_dot_of_takeExp {s : PyStr} (hr : Bounded (takeExp s).2) :
    ∃ c t, s = c :: t ∧ c.val ≠ 46 := by
  cases s with
  | nil => exact absurd rfl hr.1
  | cons b s =>
    refine ⟨b, s, rfl, fun hdot ↦ ?_⟩
    have hsame : (takeExp (b :: s)).2 = b :: s := by
      rw [takeExp, if_neg (by simp [hdot])]
    rw [hsame] at hr
    exact (hr.2 b s rfl).2.1 hdot

section

variable {F : Type} [PyFloat F]

theorem parseUnsigned_append_of {neg : Bool} {s r : PyStr} {v : Json F}
    (h : parseUnsigned neg s = some (v, r)) (hr : Bounded r) (z : PyStr) :
    parseUnsigned neg (s ++ z) = some (v, r ++ z) := by
  rw [parseUnsigned] at h
  cases hnat : takeNat s with
  | none => exact absurd h (by simp [hnat])
  | some p =>
    obtain ⟨int, s'⟩ := p
    rw [hnat] at h
    simp only [Option.some.injEq, Prod.mk.injEq] at h
    obtain ⟨hv, hrest⟩ := h
    rw [← hrest] at hr
    obtain ⟨c, t, hdot, hc⟩ := not_dot_of_takeExp hr
    have hs' : s' ≠ [] := by
      rintro rfl
      exact absurd hdot (by simp [takeFrac])
    have hfrac := takeFrac_append_of (Prod.eta _).symm hdot hc z
    have hexp := takeExp_append_of (Prod.eta _).symm hr z
    rw [parseUnsigned, takeNat_append_of hnat hs' z]
    simp only [hfrac, hexp, hv, hrest]

/-! ## Prefixes and spaces -/

theorem dropPrefix_append_of {p s r : PyStr} (h : dropPrefix p s = some r) (z : PyStr) :
    dropPrefix p (s ++ z) = some (r ++ z) := by
  rw [dropPrefix] at h
  split_ifs at h with hp
  obtain ⟨t, rfl⟩ := List.isPrefixOf_iff_prefix.mp hp
  rw [List.drop_left, Option.some.injEq] at h
  rw [← h, List.append_assoc, dropPrefix_append]

/-- One character is enough to refuse a one-character prefix. -/
theorem dropPrefix_single_none {a c : CodePoint} {t : PyStr} (h : dropPrefix [a] (c :: t) = none)
    (z : PyStr) : dropPrefix [a] (c :: t ++ z) = none := by
  have hne : a ≠ c := by
    rintro rfl
    exact absurd h (by simp [dropPrefix])
  exact dropPrefix_cons_ne hne

theorem skipSpace_cons_ite (c : CodePoint) (s : PyStr) :
    skipSpace (c :: s) = if isSpace c then skipSpace s else c :: s := List.dropWhile_cons

theorem skipSpace_append_of {s : PyStr} (h : skipSpace s ≠ []) (z : PyStr) :
    skipSpace (s ++ z) = skipSpace s ++ z := by
  induction s with
  | nil => exact absurd rfl h
  | cons c s ih =>
    rw [skipSpace_cons_ite] at h ⊢
    rw [List.cons_append, skipSpace_cons_ite]
    by_cases hc : isSpace c = true
    · rw [if_pos hc] at h ⊢
      rw [if_pos hc]
      exact ih h
    · rw [if_neg hc, if_neg hc, List.cons_append]

/-- A text that closes or goes on after spaces is bounded. -/
theorem bounded_of_skipSpace {r t : PyStr} {c : CodePoint} (h : skipSpace r = c :: t)
    (hc : c.val = 93 ∨ c.val = 44 ∨ c.val = 125) : Bounded r := by
  cases r with
  | nil => exact absurd h (by simp [skipSpace])
  | cons b r =>
    refine ⟨by simp, ?_⟩
    rw [skipSpace_cons_ite] at h
    by_cases hb : isSpace b = true
    · simp only [isSpace, Bool.or_eq_true, decide_eq_true_eq] at hb
      refine stops_cons ⟨?_, by omega, by omega, by omega⟩
      rw [digitOf, dif_neg (by omega)]
    · rw [if_neg hb, List.cons.injEq] at h
      obtain ⟨rfl, -⟩ := h
      refine stops_cons ⟨?_, by omega, by omega, by omega⟩
      rw [digitOf, dif_neg (by omega)]

/-! ## Strings -/

theorem hexFour_append_of {s r : PyStr} {n : ℕ} (h : hexFour s = some (n, r)) (z : PyStr) :
    hexFour (s ++ z) = some (n, r ++ z) := by
  match s, h with
  | a :: b :: c :: d :: s, h =>
    simp only [hexFour, List.cons_append, Option.bind_eq_bind, Option.pure_def,
      Option.bind_eq_some_iff, Option.some.injEq, Prod.mk.injEq] at h ⊢
    obtain ⟨a', ha, b', hb, c', hc, d', hd, hn, rfl⟩ := h
    exact ⟨a', ha, b', hb, c', hc, d', hd, hn, rfl⟩

theorem hexFour_append_none {s : PyStr} (h : hexFour s = none) (hs : 4 ≤ s.length) (z : PyStr) :
    hexFour (s ++ z) = none := by
  match s, hs with
  | a :: b :: c :: d :: s, _ =>
    simp only [hexFour, List.cons_append, Option.bind_eq_bind, Option.pure_def,
      Option.bind_eq_none_iff] at h ⊢
    intro a' ha b' hb c' hc d' hd
    exact absurd (h a' ha b' hb c' hc d' hd) (by simp)

theorem dropPrefix_escape (c d : CodePoint) (s : PyStr) :
    dropPrefix (py "\\u") (c :: d :: s) = if c = 92 ∧ d = 117 then some s else none := by
  by_cases h : c = 92 ∧ d = 117
  · rw [if_pos h, h.1, h.2]
    rfl
  · rw [if_neg h, dropPrefix, if_neg]
    intro hinit
    obtain ⟨t, ht⟩ := List.isPrefixOf_iff_prefix.mp hinit
    have hcons : (92 : CodePoint) :: 117 :: t = c :: d :: s := ht
    rw [List.cons.injEq, List.cons.injEq] at hcons
    exact h ⟨hcons.1.symm, hcons.2.1.symm⟩

theorem parseChars_nil (fuel : ℕ) : parseChars fuel [] = none := by
  cases fuel <;> rfl

/-- A string that breaks off at a backslash has no end. -/
theorem parseChars_backslash (fuel : ℕ) {s : PyStr} (h : parseEscape s = none) :
    parseChars fuel ((92 : CodePoint) :: s) = none := by
  cases fuel with
  | zero => rfl
  | succ fuel =>
    rw [parseChars, if_neg (by decide), if_pos (by decide), h]

/-- The half of a surrogate pair that may follow is there already, or never will be, where the
string it stands in has its end. -/
theorem low_append_of {rest : PyStr} {fuel : ℕ} (h : parseChars fuel rest ≠ none) (z : PyStr) :
    (dropPrefix (py "\\u") (rest ++ z)).bind hexFour =
      ((dropPrefix (py "\\u") rest).bind hexFour).map fun p ↦ (p.1, p.2 ++ z) := by
  match rest, h with
  | [], h => exact absurd (parseChars_nil fuel) h
  | [c], h =>
    have hc : (92 : CodePoint) ≠ c := by
      rintro rfl
      exact h (parseChars_backslash fuel rfl)
    have hnone (t : PyStr) : dropPrefix (py "\\u") (c :: t) = none := dropPrefix_cons_ne hc
    rw [List.singleton_append, hnone, hnone]
    rfl
  | c :: d :: s, h =>
    rw [List.cons_append, List.cons_append, dropPrefix_escape, dropPrefix_escape]
    by_cases hescape : c = 92 ∧ d = 117
    · rw [if_pos hescape, if_pos hescape, Option.bind_some, Option.bind_some]
      cases hfour : hexFour s with
      | some p => exact hexFour_append_of hfour z
      | none =>
        refine hexFour_append_none hfour ?_ z
        by_contra hshort
        obtain ⟨rfl, rfl⟩ := hescape
        refine h (parseChars_backslash fuel ?_)
        have hunicode : parseEscape ((117 : CodePoint) :: s) = unicodeEscape s := rfl
        rw [hunicode, unicodeEscape, hfour]
        rfl
    · rw [if_neg hescape, if_neg hescape]
      rfl

theorem unicodeEscape_append_of {s r : PyStr} {c : CodePoint} (h : unicodeEscape s = some (c, r))
    {fuel : ℕ} (hrest : parseChars fuel r ≠ none) (z : PyStr) :
    unicodeEscape (s ++ z) = some (c, r ++ z) := by
  rw [unicodeEscape] at h ⊢
  cases hfour : hexFour s with
  | none => exact absurd h (by simp [hfour])
  | some p =>
    obtain ⟨high, rest⟩ := p
    rw [hexFour_append_of hfour z]
    rw [hfour] at h
    simp only [Option.bind_eq_bind, Option.bind_some] at h ⊢
    cases hlow : (dropPrefix (py "\\u") rest).bind hexFour with
    | none =>
      -- the escape ends at `rest`, where the string goes on to its end
      simp only [hlow, Option.bind_eq_some_iff, Option.pure_def, Option.some.injEq,
        Prod.mk.injEq] at h
      obtain ⟨c', hc, rfl, rfl⟩ := h
      rw [low_append_of hrest z, hlow]
      simp [hc]
    | some q =>
      obtain ⟨low, after⟩ := q
      obtain ⟨t, hdrop, ht⟩ := Option.bind_eq_some_iff.mp hlow
      rw [dropPrefix_append_of hdrop z, Option.bind_some, hexFour_append_of ht z]
      simp only [hlow] at h
      simp only
      split_ifs at h ⊢ with hpair
      · simp only [Option.bind_eq_some_iff, Option.pure_def, Option.some.injEq,
          Prod.mk.injEq] at h ⊢
        obtain ⟨c', hc, rfl, rfl⟩ := h
        exact ⟨c', hc, rfl, rfl⟩
      · simp only [Option.bind_eq_some_iff, Option.pure_def, Option.some.injEq,
          Prod.mk.injEq] at h ⊢
        obtain ⟨c', hc, rfl, rfl⟩ := h
        exact ⟨c', hc, rfl, rfl⟩

theorem parseEscape_append_of {s r : PyStr} {c : CodePoint} (h : parseEscape s = some (c, r))
    {fuel : ℕ} (hrest : parseChars fuel r ≠ none) (z : PyStr) :
    parseEscape (s ++ z) = some (c, r ++ z) := by
  cases s with
  | nil => exact absurd h (by simp [parseEscape])
  | cons b s =>
    have hpair {e : CodePoint} (he : some (e, s) = some (c, r)) :
        some (e, s ++ z) = some (c, r ++ z) := by
      rw [Option.some.injEq, Prod.mk.injEq] at he
      rw [he.1, he.2]
    rw [parseEscape] at h
    rw [List.cons_append, parseEscape]
    split_ifs at h ⊢
    · exact hpair h
    · exact hpair h
    · exact hpair h
    · exact hpair h
    · exact hpair h
    · exact hpair h
    · exact unicodeEscape_append_of h hrest z

theorem parseChars_append_of {fuel more : ℕ} {s r k : PyStr} (h : parseChars fuel s = some (k, r))
    (hmore : fuel ≤ more) (z : PyStr) : parseChars more (s ++ z) = some (k, r ++ z) := by
  induction fuel generalizing more s k with
  | zero => exact absurd h (by simp [parseChars])
  | succ fuel ih =>
    obtain ⟨more, rfl⟩ := Nat.exists_eq_succ_of_ne_zero (by omega : more ≠ 0)
    cases s with
    | nil => exact absurd h (by simp [parseChars])
    | cons c s =>
      rw [parseChars] at h
      rw [List.cons_append, parseChars]
      split_ifs at h ⊢ with hquote hescape hcontrol
      · rw [Option.some.injEq, Prod.mk.injEq] at h
        rw [h.1, h.2]
      · cases hparse : parseEscape s with
        | none => exact absurd h (by simp [hparse])
        | some p =>
          obtain ⟨e, s'⟩ := p
          simp only [hparse, Option.map_eq_some_iff, Prod.mk.injEq] at h
          obtain ⟨q, hq, rfl, rfl⟩ := h
          have hrest : parseChars fuel s' ≠ none := by rw [hq]; simp
          have htail := ih hq (by omega : fuel ≤ more)
          simp only [parseEscape_append_of hparse hrest z, htail, Option.map_some]
      · simp only [Option.map_eq_some_iff, Prod.mk.injEq] at h
        obtain ⟨q, hq, rfl, rfl⟩ := h
        rw [ih hq (by omega : fuel ≤ more), Option.map_some]

theorem parseString_append_of {s r k : PyStr} (h : parseString s = some (k, r)) (z : PyStr) :
    parseString (s ++ z) = some (k, r ++ z) :=
  parseChars_append_of h (by simp) z

/-! ## Values -/

theorem ne_nil_of_parseElems {fuel : ℕ} {s : PyStr} {p : List (Json F) × PyStr}
    (h : parseElems fuel s = some p) : s ≠ [] := by
  rintro rfl
  cases fuel with
  | zero => exact absurd h (by simp [parseElems])
  | succ fuel =>
    have hnone : parseValue (F := F) fuel [] = none := by cases fuel <;> rfl
    exact absurd h (by simp [parseElems, hnone])

theorem ne_nil_of_parseMembers {fuel : ℕ} {s : PyStr} {p : List (PyStr × Json F) × PyStr}
    (h : parseMembers fuel s = some p) : s ≠ [] := by
  rintro rfl
  cases fuel with
  | zero => exact absurd h (by simp [parseMembers])
  | succ fuel => exact absurd h (by simp [parseMembers, dropPrefix, py])

/-- A number does not open as `Infinity` does. -/
theorem dropPrefix_infinity_none {neg : Bool} {s : PyStr} {p : Json F × PyStr}
    (h : parseUnsigned neg s = some p) (z : PyStr) : dropPrefix (py "Infinity") (s ++ z) = none := by
  cases s with
  | nil => exact absurd h (by simp [parseUnsigned, takeNat])
  | cons c s =>
    refine dropPrefix_cons_ne ?_
    rintro rfl
    have hnone : takeNat ((73 : CodePoint) :: s) = none := rfl
    have hletter : CodePoint.ofChar 'I' = 73 := rfl
    rw [parseUnsigned, hletter, hnone] at h
    exact absurd h (by simp)

mutual
/-- What the scanner read stays read when the text goes on: always for an object, and for any value
with something bounding it. -/
theorem parseValue_append_of : ∀ (fuel more : ℕ) (s : PyStr) (v : Json F) (r : PyStr),
    parseValue fuel s = some (v, r) → fuel ≤ more →
    (Bounded r ∨ ∃ t, s = (123 : CodePoint) :: t) → ∀ z, parseValue more (s ++ z) = some (v, r ++ z)
  | 0, _, _, _, _, h, _, _, _ => absurd h (by simp [parseValue])
  | _ + 1, _, [], _, _, h, _, _, _ => absurd h (by simp [parseValue])
  | _ + 1, 0, _ :: _, _, _, _, hmore, _, _ => absurd hmore (by omega)
  | fuel + 1, more + 1, c :: s, v, r, h, hmore, hr, z => by
    have literal {p : PyStr} {w : Json F}
        (hw : (dropPrefix p s).map (fun r ↦ (w, r)) = some (v, r)) :
        (dropPrefix p (s ++ z)).map (fun r ↦ (w, r)) = some (v, r ++ z) := by
      simp only [Option.map_eq_some_iff, Prod.mk.injEq] at hw
      obtain ⟨t, ht, rfl, rfl⟩ := hw
      rw [dropPrefix_append_of ht z]
      rfl
    have number (hc : c.val ≠ 123) : Bounded r := by
      rcases hr with hr | ⟨t, ht⟩
      · exact hr
      · rw [List.cons.injEq] at ht
        exact absurd (congrArg Fin.val ht.1) hc
    rw [parseValue] at h
    rw [List.cons_append, parseValue]
    by_cases h34 : c.val = 34
    · rw [if_pos h34, Option.map_eq_some_iff] at h
      obtain ⟨p, hp, hpair⟩ := h
      rw [Prod.mk.injEq] at hpair
      rw [if_pos h34, parseString_append_of hp z, Option.map_some, hpair.1, hpair.2]
    rw [if_neg h34] at h ⊢
    by_cases h91 : c.val = 91
    · rw [if_pos h91] at h ⊢
      cases hclose : dropPrefix (py "]") (skipSpace s) with
      | some t =>
        simp only [hclose, Option.some.injEq, Prod.mk.injEq] at h
        have hne : skipSpace s ≠ [] := by
          intro hnil
          rw [hnil] at hclose
          exact absurd hclose (by simp [dropPrefix, py])
        simp only [skipSpace_append_of hne z, dropPrefix_append_of hclose z]
        rw [h.1, h.2]
      | none =>
        simp only [hclose, Option.map_eq_some_iff, Prod.mk.injEq] at h
        obtain ⟨q, hq, rfl, rfl⟩ := h
        have hne := ne_nil_of_parseElems hq
        obtain ⟨b, t, hbt⟩ := List.exists_cons_of_ne_nil hne
        have hopen : dropPrefix (py "]") (skipSpace s ++ z) = none := by
          rw [hbt] at hclose ⊢
          exact dropPrefix_single_none hclose z
        have hrest := parseElems_append_of fuel more _ _ _ hq (by omega) z
        simp only [skipSpace_append_of hne z, hopen, hrest, Option.map_some]
    rw [if_neg h91] at h ⊢
    by_cases h123 : c.val = 123
    · rw [if_pos h123] at h ⊢
      cases hclose : dropPrefix (py "\x7d") (skipSpace s) with
      | some t =>
        simp only [hclose, Option.some.injEq, Prod.mk.injEq] at h
        have hne : skipSpace s ≠ [] := by
          intro hnil
          rw [hnil] at hclose
          exact absurd hclose (by simp [dropPrefix, py])
        simp only [skipSpace_append_of hne z, dropPrefix_append_of hclose z]
        rw [h.1, h.2]
      | none =>
        simp only [hclose, Option.map_eq_some_iff, Prod.mk.injEq] at h
        obtain ⟨q, hq, rfl, rfl⟩ := h
        have hne := ne_nil_of_parseMembers hq
        obtain ⟨b, t, hbt⟩ := List.exists_cons_of_ne_nil hne
        have hopen : dropPrefix (py "\x7d") (skipSpace s ++ z) = none := by
          rw [hbt] at hclose ⊢
          exact dropPrefix_single_none hclose z
        have hrest := parseMembers_append_of fuel more _ _ _ hq (by omega) z
        simp only [skipSpace_append_of hne z, hopen, hrest, Option.map_some]
    have hbounded := number h123
    rw [if_neg h123] at h ⊢
    split_ifs at h ⊢ with h110 h116 h102 h78 h73 h45
    · exact literal h
    · exact literal h
    · exact literal h
    · exact literal h
    · exact literal h
    · cases hinf : dropPrefix (py "Infinity") s with
      | some t =>
        simp only [hinf, Option.some.injEq, Prod.mk.injEq] at h
        simp only [dropPrefix_append_of hinf z]
        rw [h.1, h.2]
      | none =>
        simp only [hinf] at h
        simp only [dropPrefix_infinity_none h z]
        exact parseUnsigned_append_of h hbounded z
    · exact parseUnsigned_append_of h hbounded z
theorem parseElems_append_of : ∀ (fuel more : ℕ) (s : PyStr) (xs : List (Json F)) (r : PyStr),
    parseElems fuel s = some (xs, r) → fuel ≤ more →
    ∀ z, parseElems more (s ++ z) = some (xs, r ++ z)
  | 0, _, _, _, _, h, _, _ => absurd h (by simp [parseElems])
  | _ + 1, 0, _, _, _, _, hmore, _ => absurd hmore (by omega)
  | fuel + 1, more + 1, s, xs, r, h, hmore, z => by
    rw [parseElems] at h
    cases hvalue : parseValue (F := F) fuel s with
    | none => exact absurd h (by simp [hvalue])
    | some p =>
      obtain ⟨v, r'⟩ := p
      simp only [hvalue] at h
      cases hskip : skipSpace r' with
      | nil => exact absurd h (by simp [hskip])
      | cons c t =>
        simp only [hskip] at h
        have hlong := skipSpace_append_of (s := r') (by rw [hskip]; simp) z
        rw [hskip, List.cons_append] at hlong
        have hgo (hc : c.val = 93 ∨ c.val = 44 ∨ c.val = 125) :=
          parseValue_append_of fuel more s v r' hvalue (by omega)
            (Or.inl (bounded_of_skipSpace hskip hc)) z
        rw [parseElems]
        by_cases h93 : c.val = 93
        · rw [if_pos h93, Option.some.injEq, Prod.mk.injEq] at h
          rw [hgo (Or.inl h93)]
          simp only [hlong]
          rw [if_pos h93, h.1, h.2]
        · rw [if_neg h93] at h
          by_cases h44 : c.val = 44
          · rw [if_pos h44, Option.map_eq_some_iff] at h
            obtain ⟨q, hq, hpair⟩ := h
            rw [Prod.mk.injEq] at hpair
            have hrest := parseElems_append_of fuel more _ _ _ hq (by omega) z
            have htail := skipSpace_append_of (ne_nil_of_parseElems hq) z
            rw [hgo (Or.inr (Or.inl h44))]
            simp only [hlong]
            rw [if_neg h93, if_pos h44, htail, hrest, Option.map_some, hpair.1, hpair.2]
          · rw [if_neg h44] at h
            exact absurd h (by simp)
theorem parseMembers_append_of : ∀ (fuel more : ℕ) (s : PyStr) (d : List (PyStr × Json F))
    (r : PyStr), parseMembers fuel s = some (d, r) → fuel ≤ more →
    ∀ z, parseMembers more (s ++ z) = some (d, r ++ z)
  | 0, _, _, _, _, h, _, _ => absurd h (by simp [parseMembers])
  | _ + 1, 0, _, _, _, _, hmore, _ => absurd hmore (by omega)
  | fuel + 1, more + 1, s, d, r, h, hmore, z => by
    rw [parseMembers] at h
    cases hkey : (dropPrefix (py "\"") s).bind parseString with
    | none => exact absurd h (by simp [hkey])
    | some p =>
      obtain ⟨k, r₁⟩ := p
      simp only [hkey] at h
      obtain ⟨s₁, hquote, hstring⟩ := Option.bind_eq_some_iff.mp hkey
      have hkeyLong : (dropPrefix (py "\"") (s ++ z)).bind parseString = some (k, r₁ ++ z) := by
        rw [dropPrefix_append_of hquote z, Option.bind_some, parseString_append_of hstring z]
      cases hcolon : dropPrefix (py ":") (skipSpace r₁) with
      | none => exact absurd h (by simp [hcolon])
      | some r₂ =>
        simp only [hcolon] at h
        have hne₁ : skipSpace r₁ ≠ [] := by
          intro hnil
          rw [hnil] at hcolon
          exact absurd hcolon (by simp [dropPrefix, py])
        cases hvalue : parseValue (F := F) fuel (skipSpace r₂) with
        | none => exact absurd h (by simp [hvalue])
        | some p =>
          obtain ⟨v, r₃⟩ := p
          simp only [hvalue] at h
          have hne₂ : skipSpace r₂ ≠ [] := by
            intro hnil
            rw [hnil] at hvalue
            cases fuel <;> exact absurd hvalue (by simp [parseValue])
          cases hskip : skipSpace r₃ with
          | nil => exact absurd h (by simp [hskip])
          | cons c t =>
            simp only [hskip] at h
            have hlong := skipSpace_append_of (s := r₃) (by rw [hskip]; simp) z
            rw [hskip, List.cons_append] at hlong
            have hgo (hc : c.val = 93 ∨ c.val = 44 ∨ c.val = 125) :=
              parseValue_append_of fuel more (skipSpace r₂) v r₃ hvalue (by omega)
                (Or.inl (bounded_of_skipSpace hskip hc)) z
            rw [parseMembers]
            simp only [hkeyLong, skipSpace_append_of hne₁ z, dropPrefix_append_of hcolon z,
              skipSpace_append_of hne₂ z]
            by_cases h125 : c.val = 125
            · rw [if_pos h125, Option.some.injEq, Prod.mk.injEq] at h
              simp only [hgo (Or.inr (Or.inr h125)), hlong]
              rw [if_pos h125, h.1, h.2]
            · rw [if_neg h125] at h
              by_cases h44 : c.val = 44
              · rw [if_pos h44, Option.map_eq_some_iff] at h
                obtain ⟨q, hq, hpair⟩ := h
                rw [Prod.mk.injEq] at hpair
                have hrest := parseMembers_append_of fuel more _ _ _ hq (by omega) z
                have htail := skipSpace_append_of (ne_nil_of_parseMembers hq) z
                simp only [hgo (Or.inr (Or.inl h44)), hlong]
                rw [if_neg h125, if_pos h44, htail, hrest, Option.map_some, hpair.1, hpair.2]
              · rw [if_neg h44] at h
                exact absurd h (by simp)
end

/-! ## Objects -/

end

/-! ## Truncated bytes -/

end FourCE.Python

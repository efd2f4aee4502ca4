import FourCE.Python.Json
import Mathlib.Data.List.TakeWhile

/-!
# `json.loads` inverts `json.dumps`

Numerals, strings and then values are read back whole from what `emit` writes, whatever follows
them.  The consequences the audit trail rests on are that `loads` returns the key-sorted value of
what `dumps` wrote, that `dumps` is injective up to key order, and that its output holds no
control character, so one value is one line.
-/

namespace FourCE.Python

/-! ## Digits -/

theorem digitOf_digitChar (d : Fin 10) : digitOf (digitChar d) = some d := by
  have hd := d.isLt
  have h : 48 ≤ (digitChar d).val ∧ (digitChar d).val < 58 := by
    simp only [digitChar]
    omega
  rw [digitOf, dif_pos h]
  simp [digitChar]

/-- The text does not go on with a digit. -/
def NoDigit (r : PyStr) : Prop := ∀ c s, r = c :: s → digitOf c = none

/-- The text does not go on with anything a numeral could swallow. -/
def Stops (r : PyStr) : Prop :=
  ∀ c s, r = c :: s → digitOf c = none ∧ c.val ≠ 46 ∧ c.val ≠ 101 ∧ c.val ≠ 69

theorem Stops.noDigit {r : PyStr} (h : Stops r) : NoDigit r := fun c s hr ↦ (h c s hr).1

theorem stops_cons {c : CodePoint} {s : PyStr} (h : digitOf c = none ∧ c.val ≠ 46 ∧ c.val ≠ 101 ∧
    c.val ≠ 69) : Stops (c :: s) := by
  intro c' s' hr
  cases hr
  exact h

theorem takeDigits_append (ds : List (Fin 10)) {r : PyStr} (hr : NoDigit r) :
    takeDigits (digitsText ds ++ r) = (ds, r) := by
  induction ds with
  | nil =>
    cases r with
    | nil => rfl
    | cons c s => simp [digitsText, takeDigits, hr c s rfl]
  | cons d ds ih =>
    simp only [digitsText, List.map_cons, List.cons_append, takeDigits, digitOf_digitChar] at ih ⊢
    rw [ih]

theorem ofDigits_digitsLoop (fuel n : ℕ) (acc : List (Fin 10)) (h : n < fuel) :
    ofDigits (digitsLoop fuel n acc) = acc.foldl (fun n d ↦ 10 * n + d.val) n := by
  induction fuel generalizing n acc with
  | zero => omega
  | succ fuel ih =>
    simp only [digitsLoop]
    split_ifs with hn
    · have hmod : n % 10 = n := by omega
      simp [ofDigits, hmod]
    · have hsum : 10 * (n / 10) + n % 10 = n := by omega
      rw [ih (n / 10) _ (by omega)]
      simp [hsum]

theorem ofDigits_natDigits (n : ℕ) : ofDigits (natDigits n) = n := by
  simp [natDigits, ofDigits_digitsLoop]

theorem digitsLoop_head {fuel n : ℕ} (acc : List (Fin 10)) (h : n < fuel) (hn : n ≠ 0) :
    ∃ d ds, digitsLoop fuel n acc = d :: ds ∧ d.val ≠ 0 := by
  induction fuel generalizing n acc with
  | zero => omega
  | succ fuel ih =>
    simp only [digitsLoop]
    split_ifs with hsmall
    · exact ⟨_, _, rfl, by simp only; omega⟩
    · exact ih _ (by omega) hsmall

theorem natDigits_zero : natDigits 0 = [0] := rfl

theorem natDigits_head {n : ℕ} (hn : n ≠ 0) : ∃ d ds, natDigits n = d :: ds ∧ d.val ≠ 0 :=
  digitsLoop_head [] (Nat.lt_succ_self n) hn

/-! ## Numerals -/

theorem takeNat_natText (n : ℕ) {r : PyStr} (hr : NoDigit r) :
    takeNat (natText n ++ r) = some (n, r) := by
  by_cases hn : n = 0
  · subst hn
    rw [natText, natDigits_zero]
    rfl
  · obtain ⟨d, ds, hds, hd⟩ := natDigits_head hn
    have htake := takeDigits_append (natDigits n) hr
    have hfirst : (digitChar d).val ≠ 48 := by
      simp only [digitChar]
      omega
    have hvalue := ofDigits_natDigits n
    rw [natText]
    rw [hds] at htake hvalue ⊢
    simp only [digitsText, List.map_cons, List.cons_append] at htake ⊢
    rw [takeNat]
    simp only [hfirst, if_false, htake, hvalue]

theorem natText_head (n : ℕ) : ∃ d s, natText n = digitChar d :: s := by
  by_cases hn : n = 0
  · subst hn
    exact ⟨0, [], rfl⟩
  · obtain ⟨d, ds, hds, -⟩ := natDigits_head hn
    exact ⟨d, digitsText ds, by rw [natText, hds]; rfl⟩

theorem noDigit_of_frac_exp (frac : Option Digits) (exp : Option (Option Bool × Digits))
    {r : PyStr} (hr : NoDigit r) : NoDigit (fracText frac ++ (expText exp ++ r)) := by
  intro c s h
  cases frac with
  | some ds =>
    simp only [fracText, py] at h
    cases h
    rfl
  | none =>
    cases exp with
    | some e =>
      simp only [fracText, expText, py, List.nil_append] at h
      cases h
      rfl
    | none => exact hr c s h

theorem noDigit_of_exp (exp : Option (Option Bool × Digits)) {r : PyStr} (hr : NoDigit r) :
    NoDigit (expText exp ++ r) := noDigit_of_frac_exp none exp hr

theorem takeFrac_fracText (frac : Option Digits) {r : PyStr} (hr : NoDigit r)
    (hdot : ∀ c s, r = c :: s → c.val ≠ 46) : takeFrac (fracText frac ++ r) = (frac, r) := by
  cases frac with
  | none =>
    cases r with
    | nil => rfl
    | cons c s =>
      simp only [fracText, List.nil_append, takeFrac]
      rw [if_neg (hdot c s rfl)]
  | some ds =>
    have htake := takeDigits_append ds.toList hr
    have htext : fracText (some ds) ++ r = (46 : CodePoint) :: (digitsText ds.toList ++ r) := rfl
    rw [htext, takeFrac]
    simp only [htake]
    rfl

theorem takeSign_digits (d : Fin 10) (s : PyStr) :
    takeSign (digitChar d :: s) = (none, digitChar d :: s) := by
  have hd := d.isLt
  have h1 : (digitChar d).val ≠ 45 := by simp only [digitChar]; omega
  have h2 : (digitChar d).val ≠ 43 := by simp only [digitChar]; omega
  simp [takeSign, h1, h2]

theorem takeSign_signText (sign : Option Bool) (ds : Digits) (r : PyStr) :
    takeSign (signText sign ++ (digitsText ds.toList ++ r)) =
      (sign, digitsText ds.toList ++ r) := by
  cases sign with
  | none => exact takeSign_digits ds.first _
  | some neg => cases neg <;> rfl

theorem takeExp_expText (exp : Option (Option Bool × Digits)) {r : PyStr} (hr : Stops r) :
    takeExp (expText exp ++ r) = (exp, r) := by
  cases exp with
  | none =>
    cases r with
    | nil => rfl
    | cons c s =>
      obtain ⟨-, -, he, hE⟩ := hr c s rfl
      simp [expText, takeExp, he, hE]
  | some e =>
    obtain ⟨sign, ds⟩ := e
    have htake := takeDigits_append ds.toList hr.noDigit
    have hsign := takeSign_signText sign ds r
    have htext : expText (some (sign, ds)) ++ r =
        (101 : CodePoint) :: (signText sign ++ (digitsText ds.toList ++ r)) := by
      simp only [expText, List.append_assoc]
      rfl
    rw [htext, takeExp]
    simp only [hsign, htake]
    rfl

theorem dot_exp (exp : Option (Option Bool × Digits)) {r : PyStr} (hr : Stops r) :
    ∀ c s, expText exp ++ r = c :: s → c.val ≠ 46 := by
  intro c s h
  cases exp with
  | none => exact (hr c s h).2.1
  | some e =>
    simp only [expText, py, List.append_assoc] at h
    cases h
    decide

section Values

variable {F : Type} [PyFloat F]

theorem parseUnsigned_text (neg : Bool) (int : ℕ) (frac : Option Digits)
    (exp : Option (Option Bool × Digits)) {r : PyStr} (hr : Stops r) :
    parseUnsigned (F := F) neg (natText int ++ (fracText frac ++ (expText exp ++ r))) =
      some (numberOf neg int frac exp, r) := by
  rw [parseUnsigned, takeNat_natText int (noDigit_of_frac_exp frac exp hr.noDigit)]
  simp only [takeFrac_fracText frac (noDigit_of_exp exp hr.noDigit) (dot_exp exp hr),
    takeExp_expText exp hr]

theorem parseUnsigned_natText (neg : Bool) (n : ℕ) {r : PyStr} (hr : Stops r) :
    parseUnsigned (F := F) neg (natText n ++ r) =
      some (.int (if neg then -n else n), r) := by
  have h := parseUnsigned_text (F := F) neg n none none hr
  simpa [fracText, expText, numberOf] using h

/-! ## Strings -/

theorem hexOf_hexChar (n : Fin 16) : hexOf (hexChar n) = some n.val := by
  revert n
  decide

theorem escapeChar_length_pos (c : CodePoint) : 0 < (escapeChar c).length := by
  unfold escapeChar
  split_ifs <;> simp [py]

theorem dropPrefix_append (p r : PyStr) : dropPrefix p (p ++ r) = some r := by
  simp [dropPrefix]

theorem dropPrefix_cons_ne {c d : CodePoint} {p r : PyStr} (h : c ≠ d) :
    dropPrefix (c :: p) (d :: r) = none := by
  simp [dropPrefix, List.isPrefixOf, h]

/-- The low half of a pair never follows a control character's escape. -/
theorem unicodeEscape_control {c : CodePoint} (hc : c.val < 32) (hhigh : c.val / 16 % 16 < 16) (hlow : c.val % 16 < 16)
    (r : PyStr) :
    unicodeEscape (py "00" ++ [hexChar ⟨c.val / 16 % 16, hhigh⟩, hexChar ⟨c.val % 16, hlow⟩] ++ r) = some (c, r) := by
  have hzero : hexOf (48 : CodePoint) = some 0 := by decide
  have hvalue : ((0 * 16 + 0) * 16 + c.val / 16 % 16) * 16 + c.val % 16 = c.val := by omega
  have hfour : hexFour (py "00" ++ [hexChar ⟨c.val / 16 % 16, by omega⟩,
      hexChar ⟨c.val % 16, by omega⟩] ++ r) = some (c.val, r) := by
    have htext : py "00" ++ [hexChar ⟨c.val / 16 % 16, by omega⟩, hexChar ⟨c.val % 16, by omega⟩]
        ++ r = (48 : CodePoint) :: (48 : CodePoint) :: hexChar ⟨c.val / 16 % 16, by omega⟩ ::
          hexChar ⟨c.val % 16, by omega⟩ :: r := rfl
    rw [htext, hexFour]
    simp only [hzero, hexOf_hexChar, Option.bind_eq_bind, Option.bind_some, hvalue]
    rfl
  rw [unicodeEscape, hfour]
  simp only [Option.bind_eq_bind, Option.bind_some, inRange_eq (Nat.zero_le _)]
  split
  · rw [if_neg (by omega)]
    rfl
  · rfl

theorem parseChars_escapeChar (c : CodePoint) (fuel : ℕ) (r : PyStr) :
    parseChars (fuel + 1) (escapeChar c ++ r) =
      (parseChars fuel r).map fun p ↦ (c :: p.1, p.2) := by
  have byVal {n : ℕ} {d : CodePoint} (h : c.val = n) (hd : d.val = n) : d = c :=
    Fin.ext (hd.trans h.symm)
  unfold escapeChar
  split_ifs with h34 h92 h10 h13 h9 h12 h8 h32
  · rw [← byVal h34 (d := 34) rfl]; rfl
  · rw [← byVal h92 (d := 92) rfl]; rfl
  · rw [← byVal h10 (d := 10) rfl]; rfl
  · rw [← byVal h13 (d := 13) rfl]; rfl
  · rw [← byVal h9 (d := 9) rfl]; rfl
  · rw [← byVal h12 (d := 12) rfl]; rfl
  · rw [← byVal h8 (d := 8) rfl]; rfl
  · have hescape : parseEscape (py "u00" ++ [hexChar ⟨c.val / 16 % 16, by omega⟩,
        hexChar ⟨c.val % 16, by omega⟩] ++ r) = some (c, r) := by
      rw [← unicodeEscape_control h32 (by omega) (by omega) r]
      rfl
    have htext : py "\\u00" ++ [hexChar ⟨c.val / 16 % 16, by omega⟩, hexChar ⟨c.val % 16, by omega⟩]
        ++ r = (92 : CodePoint) :: (py "u00" ++ [hexChar ⟨c.val / 16 % 16, by omega⟩,
          hexChar ⟨c.val % 16, by omega⟩] ++ r) := rfl
    rw [htext, parseChars]
    simp only [hescape]
    rfl
  · rw [List.singleton_append, parseChars, if_neg h34, if_neg h92, if_neg h32]

theorem parseChars_quote (s : PyStr) (r : PyStr) :
    ∀ fuel, (s.flatMap escapeChar).length < fuel →
      parseChars fuel (s.flatMap escapeChar ++ (py "\"" ++ r)) = some (s, r) := by
  induction s with
  | nil =>
    intro fuel h
    obtain ⟨fuel, rfl⟩ := Nat.exists_eq_succ_of_ne_zero (by omega : fuel ≠ 0)
    rfl
  | cons c s ih =>
    intro fuel h
    have hpos := escapeChar_length_pos c
    simp only [List.flatMap_cons, List.length_append] at h
    obtain ⟨fuel, rfl⟩ := Nat.exists_eq_succ_of_ne_zero (by omega : fuel ≠ 0)
    rw [List.flatMap_cons, List.append_assoc, parseChars_escapeChar, ih fuel (by omega)]
    rfl

theorem parseString_quote (s r : PyStr) :
    parseString (s.flatMap escapeChar ++ (py "\"" ++ r)) = some (s, r) := by
  refine parseChars_quote s r _ ?_
  have hquote : (py "\"").length = 1 := rfl
  simp only [List.length_append, hquote]
  omega

/-! ## Values -/

theorem skipSpace_cons {c : CodePoint} (h : 33 ≤ c.val) (s : PyStr) :
    skipSpace (c :: s) = c :: s := by
  have hspace : isSpace c = false := by
    simp only [isSpace, Bool.or_eq_false_iff, decide_eq_false_iff_not]
    omega
  simp [skipSpace, hspace]

/-- What a separator puts after its comma or colon. -/
def gap (spaced : Bool) : PyStr := if spaced then [32] else []

theorem itemSep_eq (spaced : Bool) : itemSep spaced = (44 : CodePoint) :: gap spaced := by
  cases spaced <;> rfl

theorem keySep_eq (spaced : Bool) : keySep spaced = (58 : CodePoint) :: gap spaced := by
  cases spaced <;> rfl

theorem skipSpace_gap (spaced : Bool) (s : PyStr) : skipSpace (gap spaced ++ s) = skipSpace s := by
  cases spaced <;> rfl

/-- A value's text opens with a printing character that closes nothing. -/
structure Opens (s : PyStr) : Prop where
  head : ∃ c t, s = c :: t ∧ 33 ≤ c.val ∧ c.val ≠ 93 ∧ c.val ≠ 125

theorem opens_natText (n : ℕ) (s : PyStr) : Opens (natText n ++ s) := by
  obtain ⟨d, t, ht⟩ := natText_head n
  have hd := d.isLt
  refine ⟨digitChar d, t ++ s, by rw [ht]; rfl, ?_, ?_, ?_⟩ <;> simp only [digitChar] <;> omega

theorem opens_cons {c : CodePoint} (h : 33 ≤ c.val ∧ c.val ≠ 93 ∧ c.val ≠ 125) (s : PyStr) :
    Opens (c :: s) := ⟨⟨c, s, rfl, h⟩⟩

theorem opens_emit (spaced : Bool) (v : Json F) (r : PyStr) : Opens (v.emit spaced ++ r) := by
  cases v with
  | null => exact opens_cons (by decide) _
  | bool b => cases b <;> exact opens_cons (by decide) _
  | int i =>
    rw [Json.emit, intText]
    split_ifs
    · exact opens_cons (by decide) _
    · exact opens_natText _ _
  | float x =>
    rw [Json.emit]
    cases PyFloat.lit x with
    | nan => exact opens_cons (by decide) _
    | inf neg => cases neg <;> exact opens_cons (by decide) _
    | num n =>
      obtain ⟨neg, int, frac, exp, h⟩ := n
      cases neg with
      | true => exact opens_cons (by decide) _
      | false =>
        simp only [floatText, numeralText, Bool.false_eq_true, if_false, List.nil_append,
          List.append_assoc]
        exact opens_natText _ _
  | str s => exact opens_cons (by decide) _
  | arr xs => exact opens_cons (by decide) _
  | obj d => exact opens_cons (by decide) _

theorem Opens.skipSpace_eq {s : PyStr} (h : Opens s) : skipSpace s = s := by
  obtain ⟨c, t, rfl, hc, -, -⟩ := h.head
  exact skipSpace_cons hc t

theorem Opens.not_bracket {s : PyStr} (h : Opens s) : dropPrefix (py "]") s = none := by
  obtain ⟨c, t, rfl, -, hc, -⟩ := h.head
  exact dropPrefix_cons_ne (fun he ↦ hc (by rw [← he]; rfl))

theorem parseValue_digit (fuel : ℕ) (d : Fin 10) (s : PyStr) :
    parseValue (F := F) (fuel + 1) (digitChar d :: s) = parseUnsigned false (digitChar d :: s) := by
  have hd := d.isLt
  have hne (n : ℕ) (hn : n < 48 ∨ 58 ≤ n) : (digitChar d).val ≠ n := by
    simp only [digitChar]
    omega
  rw [parseValue]
  simp [hne]

theorem parseValue_natText (fuel n : ℕ) (s : PyStr) :
    parseValue (F := F) (fuel + 1) (natText n ++ s) = parseUnsigned false (natText n ++ s) := by
  obtain ⟨d, t, ht⟩ := natText_head n
  rw [ht, List.cons_append]
  exact parseValue_digit fuel d _

theorem parseValue_minus (fuel n : ℕ) (s : PyStr) :
    parseValue (F := F) (fuel + 1) (py "-" ++ (natText n ++ s)) =
      parseUnsigned true (natText n ++ s) := by
  obtain ⟨d, t, ht⟩ := natText_head n
  have hd := d.isLt
  have hne : CodePoint.ofChar 'I' ≠ digitChar d := by
    intro he
    have hv := congrArg Fin.val he
    simp only [digitChar] at hv
    have hI : (CodePoint.ofChar 'I').val = 73 := rfl
    omega
  rw [ht, List.cons_append]
  have htext : py "-" ++ digitChar d :: (t ++ s) = (45 : CodePoint) :: digitChar d :: (t ++ s) := rfl
  have hdrop : dropPrefix (py "Infinity") (digitChar d :: (t ++ s)) = none := dropPrefix_cons_ne hne
  rw [htext, parseValue]
  simp only [hdrop]
  rfl

omit [PyFloat F] in
theorem dictSet_append (d : List (PyStr × Json F)) (k : PyStr) (v : Json F)
    (h : k ∉ d.map Prod.fst) : dictSet d k v = d ++ [(k, v)] := by
  induction d with
  | nil => rfl
  | cons p d ih =>
    simp only [List.map_cons, List.mem_cons, not_or] at h
    rw [dictSet, if_neg (fun he ↦ h.1 he.symm), ih h.2, List.cons_append]

omit [PyFloat F] in
theorem dictUpdate_append (d e : List (PyStr × Json F)) (h : ((d ++ e).map Prod.fst).Nodup) :
    dictUpdate d e = d ++ e := by
  induction e generalizing d with
  | nil => simp [dictUpdate]
  | cons p e ih =>
    have hp : p.1 ∉ d.map Prod.fst := by
      intro hmem
      simp only [List.map_append, List.map_cons, List.nodup_append] at h
      exact h.2.2 p.1 hmem p.1 List.mem_cons_self rfl
    have hstep : dictUpdate d (p :: e) = dictUpdate (dictSet d p.1 p.2) e := rfl
    rw [hstep, dictSet_append d p.1 p.2 hp, ih _ (by simpa using h)]
    simp

omit [PyFloat F] in
theorem dictUpdate_nil {d : List (PyStr × Json F)} (h : (d.map Prod.fst).Nodup) :
    dictUpdate [] d = d := by
  simpa using dictUpdate_append [] d (by simpa using h)

theorem length_emit_pos (spaced : Bool) (v : Json F) : 0 < (v.emit spaced).length := by
  obtain ⟨c, t, ht, -⟩ := (opens_emit spaced v []).head
  rw [List.append_nil] at ht
  simp [ht]

theorem parseValue_float (fuel : ℕ) (x : F) {r : PyStr} (hr : Stops r) :
    parseValue (fuel + 1) (floatText (PyFloat.lit x) ++ r) = some (Json.float x, r) := by
  have hlit := PyFloat.ofLit_lit x
  cases hx : PyFloat.lit x with
  | nan =>
    rw [hx] at hlit
    rw [← hlit]
    rfl
  | inf neg =>
    rw [hx] at hlit
    rw [← hlit]
    cases neg <;> rfl
  | num n =>
    rw [hx] at hlit
    obtain ⟨neg, int, frac, exp, h⟩ := n
    have hnumber : numberOf (F := F) neg int frac exp = .float x := by
      rw [numberOf, dif_pos h, hlit]
    rw [← hnumber, ← parseUnsigned_text neg int frac exp hr]
    simp only [floatText, numeralText, List.append_assoc]
    cases neg with
    | true => exact parseValue_minus fuel int _
    | false => exact parseValue_natText fuel int _

theorem parseValue_int (fuel : ℕ) (i : ℤ) {r : PyStr} (hr : Stops r) :
    parseValue (F := F) (fuel + 1) (intText i ++ r) = some (.int i, r) := by
  rw [intText]
  split_ifs with hi
  · have habs : -(i.natAbs : ℤ) = i := by omega
    rw [List.append_assoc, parseValue_minus, parseUnsigned_natText true _ hr, if_pos rfl, habs]
  · have habs : (i.natAbs : ℤ) = i := by omega
    rw [parseValue_natText, parseUnsigned_natText false _ hr, if_neg Bool.false_ne_true, habs]

mutual
/-- The scanner reads back a whole emitted value and stops where it ends. -/
theorem parseValue_emit (spaced : Bool) : ∀ (v : Json F) (fuel : ℕ) (r : PyStr), v.wf = true →
    (v.emit spaced).length ≤ fuel → Stops r → parseValue fuel (v.emit spaced ++ r) = some (v, r)
  | v, 0, r, _, hfuel, _ => absurd (length_emit_pos spaced v) (by omega)
  | .null, _ + 1, r, _, _, _ => rfl
  | .bool true, _ + 1, r, _, _, _ => rfl
  | .bool false, _ + 1, r, _, _, _ => rfl
  | .int i, fuel + 1, r, _, _, hr => parseValue_int fuel i hr
  | .float x, fuel + 1, r, _, _, hr => parseValue_float fuel x hr
  | .str s, fuel + 1, r, _, _, _ => by
    have htext : (Json.str (F := F) s).emit spaced ++ r =
        (34 : CodePoint) :: (s.flatMap escapeChar ++ (py "\"" ++ r)) := by
      simp only [Json.emit, quote, List.append_assoc]
      rfl
    rw [htext, parseValue]
    simp only [parseString_quote]
    rfl
  | .arr [], _ + 1, r, _, _, _ => rfl
  | .arr (x :: xs), fuel + 1, r, hwf, hfuel, _ => by
    have helems := parseElems_emit spaced (x :: xs) fuel r (by simp) hwf
      (by simpa [Json.emit, py] using hfuel)
    have hopens : Opens (emitElems spaced (x :: xs) ++ r) := by
      cases xs <;> simp only [emitElems, List.append_assoc] <;> exact opens_emit spaced x _
    have htext : (Json.arr (x :: xs)).emit spaced ++ r =
        (91 : CodePoint) :: (emitElems spaced (x :: xs) ++ r) := rfl
    rw [htext, parseValue]
    simp only [hopens.skipSpace_eq, hopens.not_bracket, helems]
    rfl
  | .obj [], _ + 1, r, _, _, _ => rfl
  | .obj ((k, v) :: d), fuel + 1, r, hwf, hfuel, _ => by
    simp only [Json.wf, Bool.and_eq_true, decide_eq_true_eq] at hwf
    have hmembers := parseMembers_emit spaced ((k, v) :: d) fuel r (by simp) hwf.2
      (by simpa [Json.emit, py] using hfuel)
    have hhead : ∃ t, emitMembers spaced ((k, v) :: d) ++ r = (34 : CodePoint) :: t := by
      cases d <;> exact ⟨_, rfl⟩
    obtain ⟨t, ht⟩ := hhead
    have htext : (Json.obj ((k, v) :: d)).emit spaced ++ r =
        (123 : CodePoint) :: (emitMembers spaced ((k, v) :: d) ++ r) := rfl
    have hskip : skipSpace ((34 : CodePoint) :: t) = (34 : CodePoint) :: t := rfl
    have hclose : dropPrefix (py "\x7d") ((34 : CodePoint) :: t) = none := rfl
    rw [htext, parseValue]
    rw [ht] at hmembers ⊢
    simp only [hskip, hclose, hmembers, Option.map_some, dictUpdate_nil hwf.1]
    rfl
theorem parseElems_emit (spaced : Bool) : ∀ (xs : List (Json F)) (fuel : ℕ) (r : PyStr), xs ≠ [] →
    wfElems xs = true → (emitElems spaced xs).length ≤ fuel →
    parseElems fuel (emitElems spaced xs ++ r) = some (xs, r)
  | [], _, _, hne, _, _ => absurd rfl hne
  | [x], 0, _, _, _, hfuel => by simp [emitElems, py] at hfuel
  | x :: y :: xs, 0, _, _, _, hfuel => by simp [emitElems, itemSep_eq] at hfuel
  | [x], fuel + 1, r, _, hwf, hfuel => by
    simp only [wfElems, Bool.and_true] at hwf
    have hlen : (py "]").length = 1 := rfl
    simp only [emitElems, List.length_append, hlen] at hfuel
    have hstops : Stops (py "]" ++ r) := stops_cons (by decide)
    have hx := parseValue_emit spaced x fuel (py "]" ++ r) hwf (by omega) hstops
    rw [emitElems, List.append_assoc, parseElems, hx]
    rfl
  | x :: y :: xs, fuel + 1, r, _, hwf, hfuel => by
    simp only [wfElems, Bool.and_eq_true] at hwf
    simp only [emitElems, itemSep_eq, List.length_append, List.length_cons] at hfuel
    have hx := parseValue_emit spaced x fuel
      ((44 : CodePoint) :: (gap spaced ++ (emitElems spaced (y :: xs) ++ r))) hwf.1 (by omega)
      (stops_cons (by decide))
    have hrest := parseElems_emit spaced (y :: xs) fuel r (by simp)
      (by simp only [wfElems, Bool.and_eq_true]; exact hwf.2) (by omega)
    have hopens : Opens (emitElems spaced (y :: xs) ++ r) := by
      cases xs <;> simp only [emitElems, List.append_assoc] <;> exact opens_emit spaced y _
    have htext : emitElems spaced (x :: y :: xs) ++ r = x.emit spaced ++
        ((44 : CodePoint) :: (gap spaced ++ (emitElems spaced (y :: xs) ++ r))) := by
      simp [emitElems, itemSep_eq]
    rw [htext, parseElems, hx]
    simp only [skipSpace_cons (c := 44) (by decide), skipSpace_gap, hopens.skipSpace_eq, hrest]
    rfl
theorem parseMembers_emit (spaced : Bool) : ∀ (d : List (PyStr × Json F)) (fuel : ℕ) (r : PyStr),
    d ≠ [] → wfMembers d = true → (emitMembers spaced d).length ≤ fuel →
    parseMembers fuel (emitMembers spaced d ++ r) = some (d, r)
  | [], _, _, hne, _, _ => absurd rfl hne
  | [(k, v)], 0, _, _, _, hfuel => by simp [emitMembers, py] at hfuel
  | (k, v) :: p :: d, 0, _, _, _, hfuel => by simp [emitMembers, itemSep_eq] at hfuel
  | [(k, v)], fuel + 1, r, _, hwf, hfuel => by
    simp only [wfMembers, Bool.and_true] at hwf
    have hlen : (py "\x7d").length = 1 := rfl
    simp only [emitMembers, List.length_append, hlen] at hfuel
    have hstops : Stops (py "\x7d" ++ r) := stops_cons (by decide)
    have hv := parseValue_emit spaced v fuel (py "\x7d" ++ r) hwf (by omega) hstops
    have htext : emitMembers spaced [(k, v)] ++ r = py "\"" ++ (k.flatMap escapeChar ++ (py "\"" ++
        ((58 : CodePoint) :: (gap spaced ++ (v.emit spaced ++ (py "\x7d" ++ r)))))) := by
      simp [emitMembers, quote, keySep_eq]
    rw [htext, parseMembers, dropPrefix_append, Option.bind_some, parseString_quote]
    simp only [skipSpace_cons (c := 58) (by decide)]
    rw [show (58 : CodePoint) :: (gap spaced ++ (v.emit spaced ++ (py "\x7d" ++ r))) =
      py ":" ++ (gap spaced ++ (v.emit spaced ++ (py "\x7d" ++ r))) from rfl, dropPrefix_append]
    simp only [skipSpace_gap, (opens_emit spaced v _).skipSpace_eq, hv]
    rfl
  | (k, v) :: p :: d, fuel + 1, r, _, hwf, hfuel => by
    simp only [wfMembers, Bool.and_eq_true] at hwf
    simp only [emitMembers, itemSep_eq, List.length_append, List.length_cons] at hfuel
    have hv := parseValue_emit spaced v fuel
      ((44 : CodePoint) :: (gap spaced ++ (emitMembers spaced (p :: d) ++ r))) hwf.1 (by omega)
      (stops_cons (by decide))
    have hrest := parseMembers_emit spaced (p :: d) fuel r (by simp)
      (by obtain ⟨q, w⟩ := p; simp only [wfMembers, Bool.and_eq_true]; exact hwf.2) (by omega)
    have hhead : ∃ t, emitMembers spaced (p :: d) ++ r = (34 : CodePoint) :: t := by
      obtain ⟨q, w⟩ := p
      cases d <;> exact ⟨_, rfl⟩
    have hskip : skipSpace (emitMembers spaced (p :: d) ++ r) = emitMembers spaced (p :: d) ++ r := by
      obtain ⟨t, ht⟩ := hhead
      rw [ht]
      rfl
    have htext : emitMembers spaced ((k, v) :: p :: d) ++ r = py "\"" ++ (k.flatMap escapeChar ++
        (py "\"" ++ (py ":" ++ (gap spaced ++ (v.emit spaced ++
          ((44 : CodePoint) :: (gap spaced ++ (emitMembers spaced (p :: d) ++ r)))))))) := by
      simp only [emitMembers, quote, keySep_eq, itemSep_eq, List.append_assoc, List.cons_append]
      rfl
    have hcolon (s : PyStr) : skipSpace (py ":" ++ s) = py ":" ++ s := rfl
    rw [htext, parseMembers, dropPrefix_append, Option.bind_some, parseString_quote]
    simp only [hcolon, dropPrefix_append, skipSpace_gap, (opens_emit spaced v _).skipSpace_eq, hv,
      skipSpace_cons (c := 44) (by decide), hskip, hrest]
    rfl
end

theorem loads_emit (spaced : Bool) {v : Json F} (hwf : v.wf = true) {w : PyStr}
    (hw : ∀ c ∈ w, isSpace c = true) : loads (v.emit spaced ++ w) = some v := by
  have hstops : Stops w := by
    intro c s h
    have hc := hw c (by rw [h]; exact List.mem_cons_self)
    simp only [isSpace, Bool.or_eq_true, decide_eq_true_eq] at hc
    refine ⟨?_, by omega, by omega, by omega⟩
    rw [digitOf, dif_neg (by omega)]
  have hskip : skipSpace w = [] := by
    rw [skipSpace, List.dropWhile_eq_nil_iff]
    exact hw
  rw [loads, (opens_emit spaced v w).skipSpace_eq,
    parseValue_emit spaced v _ w hwf (by simp) hstops]
  simp [hskip]

end Values

/-! ## Key order -/

section Order

variable {F : Type}

theorem sortElems_eq (xs : List (Json F)) : sortElems xs = xs.map Json.sortKeys := by
  induction xs with
  | nil => rfl
  | cons x xs ih => rw [sortElems, ih, List.map_cons]

theorem sortMembers_eq (d : List (PyStr × Json F)) :
    sortMembers d = d.map (fun p ↦ (p.1, p.2.sortKeys)) := by
  induction d with
  | nil => rfl
  | cons p d ih => rw [sortMembers, ih, List.map_cons]

theorem wfElems_iff (xs : List (Json F)) : wfElems xs = true ↔ ∀ x ∈ xs, x.wf = true := by
  induction xs with
  | nil => simp [wfElems]
  | cons x xs ih => simp [wfElems, ih]

theorem wfMembers_iff (d : List (PyStr × Json F)) :
    wfMembers d = true ↔ ∀ p ∈ d, p.2.wf = true := by
  induction d with
  | nil => simp [wfMembers]
  | cons p d ih => simp [wfMembers, ih]

theorem wf_obj_iff (d : List (PyStr × Json F)) :
    (Json.obj d).wf = true ↔ (d.map Prod.fst).Nodup ∧ ∀ p ∈ d, p.2.wf = true := by
  simp [Json.wf, wfMembers_iff]

theorem sortMembers_keys (d : List (PyStr × Json F)) :
    (sortMembers d).map Prod.fst = d.map Prod.fst := by
  rw [sortMembers_eq, List.map_map]
  rfl

theorem insertionSort_keys_perm (d : List (PyStr × Json F)) :
    ((d.insertionSort keyLe).map Prod.fst).Perm (d.map Prod.fst) :=
  (List.perm_insertionSort keyLe d).map Prod.fst

instance : Std.Total (keyLe (F := F)) := ⟨fun p q ↦ le_total p.1 q.1⟩

instance : IsTrans (PyStr × Json F) keyLe := ⟨fun _ _ _ ↦ le_trans⟩

/-- With unique keys the sorted dictionary does not depend on the insertion order. -/
theorem insertionSort_eq_of_perm {d e : List (PyStr × Json F)} (h : d.Perm e)
    (hkeys : (d.map Prod.fst).Nodup) : d.insertionSort keyLe = e.insertionSort keyLe := by
  refine List.Perm.eq_of_pairwise ?_ (List.pairwise_insertionSort keyLe d)
    (List.pairwise_insertionSort keyLe e) ?_
  · intro p q hp hq hpq hqp
    rw [List.mem_insertionSort] at hp hq
    have hkey : p.1 = q.1 := le_antisymm hpq hqp
    exact List.inj_on_of_nodup_map hkeys hp (h.mem_iff.mpr hq) hkey
  · exact (List.perm_insertionSort _ _).trans (h.trans (List.perm_insertionSort _ _).symm)

theorem sortMembers_eq_self {e : List (PyStr × Json F)}
    (h : ∀ p ∈ e, (p.1, p.2.sortKeys) = p) : sortMembers e = e := by
  rw [sortMembers_eq]
  exact (List.map_congr_left (g := id) h).trans (List.map_id _)

mutual
theorem sortKeys_sortKeys : ∀ v : Json F, v.sortKeys.sortKeys = v.sortKeys
  | .null | .bool _ | .int _ | .float _ | .str _ => rfl
  | .arr xs => by
    rw [Json.sortKeys, Json.sortKeys, sortElems_sortElems xs]
  | .obj d => by
    have hfixed : sortMembers ((sortMembers d).insertionSort keyLe) =
        (sortMembers d).insertionSort keyLe :=
      sortMembers_eq_self fun p hp ↦ sortMembers_fixed d p ((List.mem_insertionSort keyLe).mp hp)
    rw [Json.sortKeys, Json.sortKeys, hfixed,
      (List.pairwise_insertionSort keyLe _).insertionSort_eq]
theorem sortElems_sortElems : ∀ xs : List (Json F), sortElems (sortElems xs) = sortElems xs
  | [] => rfl
  | x :: xs => by
    rw [sortElems, sortElems, sortKeys_sortKeys x, sortElems_sortElems xs]
theorem sortMembers_fixed : ∀ (d : List (PyStr × Json F)) (p : PyStr × Json F),
    p ∈ sortMembers d → (p.1, p.2.sortKeys) = p
  | [], p, hp => by simp [sortMembers] at hp
  | (k, v) :: d, p, hp => by
    rcases List.mem_cons.mp hp with rfl | hp
    · simp only [sortKeys_sortKeys v]
    · exact sortMembers_fixed d p hp
end

mutual
theorem wf_sortKeys : ∀ v : Json F, v.wf = true → v.sortKeys.wf = true
  | .null, _ | .bool _, _ | .int _, _ | .float _, _ | .str _, _ => rfl
  | .arr xs, h => wf_sortElems xs h
  | .obj d, h => by
    rw [wf_obj_iff] at h
    rw [Json.sortKeys, wf_obj_iff]
    refine ⟨?_, fun p hp ↦ wf_sortMembers d h.2 p ((List.mem_insertionSort keyLe).mp hp)⟩
    rw [(insertionSort_keys_perm _).nodup_iff, sortMembers_keys]
    exact h.1
theorem wf_sortElems : ∀ xs : List (Json F), wfElems xs = true → wfElems (sortElems xs) = true
  | [], _ => rfl
  | x :: xs, h => by
    simp only [wfElems, Bool.and_eq_true] at h
    simp only [sortElems, wfElems, wf_sortKeys x h.1, wf_sortElems xs h.2, Bool.and_self]
theorem wf_sortMembers : ∀ d : List (PyStr × Json F), (∀ p ∈ d, p.2.wf = true) →
    ∀ p ∈ sortMembers d, p.2.wf = true
  | [], _, p, hp => by simp [sortMembers] at hp
  | (k, v) :: d, h, p, hp => by
    rcases List.mem_cons.mp hp with rfl | hp
    · exact wf_sortKeys v (h (k, v) List.mem_cons_self)
    · exact wf_sortMembers d (fun q hq ↦ h q (List.mem_cons_of_mem _ hq)) p hp
end

/-- Dropping a key commutes with sorting. -/
theorem same_obj_dictErase {d : List (PyStr × Json F)} (hkeys : (d.map Prod.fst).Nodup)
    (key : PyStr) :
    (Json.obj (dictErase ((sortMembers d).insertionSort keyLe) key)).Same
      (.obj (dictErase d key)) := by
  have hfilter (e : List (PyStr × Json F)) :
      sortMembers (dictErase e key) = dictErase (sortMembers e) key := by
    simp only [sortMembers_eq, dictErase, List.filter_map]
    rfl
  have hfixed : sortMembers ((sortMembers d).insertionSort keyLe) =
      (sortMembers d).insertionSort keyLe :=
    sortMembers_eq_self fun p hp ↦ sortMembers_fixed d p ((List.mem_insertionSort keyLe).mp hp)
  have hnodup : ((dictErase (sortMembers d) key).map Prod.fst).Nodup := by
    have hsub : (dictErase (sortMembers d) key).Sublist (sortMembers d) := List.filter_sublist
    exact (hsub.map Prod.fst).nodup (by rwa [sortMembers_keys])
  simp only [Json.Same, Json.sortKeys, hfilter, hfixed]
  congr 1
  exact (insertionSort_eq_of_perm ((List.perm_insertionSort keyLe _).symm.filter _) hnodup).symm

end Order

/-! ## `dumps` -/

section Dumps

/-- A test that every printing ASCII character passes. -/
def AsciiPass (P : CodePoint → Bool) : Prop := ∀ c : CodePoint, 32 ≤ c.val → c.val < 128 → P c = true

theorem AsciiPass.all {P : CodePoint → Bool} (hP : AsciiPass P) {s : PyStr}
    (h : s.all (fun c ↦ 32 ≤ c.val && c.val < 128) = true) : s.all P = true := by
  rw [List.all_eq_true] at h ⊢
  intro c hc
  have hrange := h c hc
  simp only [Bool.and_eq_true, decide_eq_true_eq] at hrange
  exact hP c hrange.1 hrange.2

theorem ascii_digitsText (ds : List (Fin 10)) :
    (digitsText ds).all (fun c ↦ 32 ≤ c.val && c.val < 128) = true := by
  rw [digitsText, List.all_map, List.all_eq_true]
  intro d _
  have hd : 32 ≤ (digitChar d).val ∧ (digitChar d).val < 128 := by
    simp only [digitChar]
    omega
  exact Bool.and_eq_true_iff.mpr ⟨decide_eq_true hd.1, decide_eq_true hd.2⟩

theorem ascii_intText (i : ℤ) : (intText i).all (fun c ↦ 32 ≤ c.val && c.val < 128) = true := by
  rw [intText]
  split_ifs
  · rw [List.all_append, natText, ascii_digitsText]
    rfl
  · exact ascii_digitsText _

theorem ascii_floatText (x : FloatLit) :
    (floatText x).all (fun c ↦ 32 ≤ c.val && c.val < 128) = true := by
  have hfrac (f : Option Digits) :
      (fracText f).all (fun c ↦ 32 ≤ c.val && c.val < 128) = true := by
    cases f with
    | none => rfl
    | some ds =>
      rw [fracText, List.all_append, ascii_digitsText]
      rfl
  have hexp (e : Option (Option Bool × Digits)) :
      (expText e).all (fun c ↦ 32 ≤ c.val && c.val < 128) = true := by
    rcases e with _ | ⟨_ | neg, ds⟩
    · rfl
    · rw [expText, List.all_append, List.all_append, ascii_digitsText]
      rfl
    · rw [expText, List.all_append, List.all_append, ascii_digitsText]
      cases neg <;> rfl
  cases x with
  | nan => rfl
  | inf neg => cases neg <;> rfl
  | num n =>
    rw [floatText, numeralText, List.all_append, List.all_append, List.all_append, natText,
      ascii_digitsText, hfrac, hexp]
    cases n.neg <;> rfl

section AllStrings

variable {F : Type}

mutual
/-- Every string of the value, keys included, passes the test. -/
def Json.allStrings (p : PyStr → Bool) : Json F → Bool
  | .null | .bool _ | .int _ | .float _ => true
  | .str s => p s
  | .arr xs => elemsAllStrings p xs
  | .obj d => membersAllStrings p d
def elemsAllStrings (p : PyStr → Bool) : List (Json F) → Bool
  | [] => true
  | x :: xs => x.allStrings p && elemsAllStrings p xs
def membersAllStrings (p : PyStr → Bool) : List (PyStr × Json F) → Bool
  | [] => true
  | (k, v) :: d => (p k && v.allStrings p) && membersAllStrings p d
end

theorem membersAllStrings_iff (p : PyStr → Bool) (d : List (PyStr × Json F)) :
    membersAllStrings p d = true ↔ ∀ q ∈ d, p q.1 = true ∧ q.2.allStrings p = true := by
  induction d with
  | nil => simp [membersAllStrings]
  | cons q d ih => simp [membersAllStrings, ih]

mutual
theorem allStrings_sortKeys (p : PyStr → Bool) : ∀ v : Json F,
    v.sortKeys.allStrings p = v.allStrings p
  | .null | .bool _ | .int _ | .float _ | .str _ => rfl
  | .arr xs => by
    rw [Json.sortKeys, Json.allStrings, Json.allStrings, elemsAllStrings_sortElems p xs]
  | .obj d => by
    have hperm : membersAllStrings p ((sortMembers d).insertionSort keyLe) =
        membersAllStrings p (sortMembers d) := by
      rw [Bool.eq_iff_iff, membersAllStrings_iff, membersAllStrings_iff]
      simp only [List.mem_insertionSort]
    rw [Json.sortKeys, Json.allStrings, Json.allStrings, hperm, membersAllStrings_sortMembers p d]
theorem elemsAllStrings_sortElems (p : PyStr → Bool) : ∀ xs : List (Json F),
    elemsAllStrings p (sortElems xs) = elemsAllStrings p xs
  | [] => rfl
  | x :: xs => by
    rw [sortElems, elemsAllStrings, elemsAllStrings, allStrings_sortKeys p x,
      elemsAllStrings_sortElems p xs]
theorem membersAllStrings_sortMembers (p : PyStr → Bool) : ∀ d : List (PyStr × Json F),
    membersAllStrings p (sortMembers d) = membersAllStrings p d
  | [] => rfl
  | (k, v) :: d => by
    rw [sortMembers, membersAllStrings, membersAllStrings, allStrings_sortKeys p v,
      membersAllStrings_sortMembers p d]
end

mutual
theorem allStrings_of_forall {p : PyStr → Bool} (h : ∀ s, p s = true) : ∀ v : Json F,
    v.allStrings p = true
  | .null | .bool _ | .int _ | .float _ => rfl
  | .str s => h s
  | .arr xs => elemsAllStrings_of_forall h xs
  | .obj d => membersAllStrings_of_forall h d
theorem elemsAllStrings_of_forall {p : PyStr → Bool} (h : ∀ s, p s = true) :
    ∀ xs : List (Json F), elemsAllStrings p xs = true
  | [] => rfl
  | x :: xs => by
    rw [elemsAllStrings, allStrings_of_forall h x, elemsAllStrings_of_forall h xs]
    rfl
theorem membersAllStrings_of_forall {p : PyStr → Bool} (h : ∀ s, p s = true) :
    ∀ d : List (PyStr × Json F), membersAllStrings p d = true
  | [] => rfl
  | (k, v) :: d => by
    rw [membersAllStrings, h, allStrings_of_forall h v, membersAllStrings_of_forall h d]
    rfl
end

end AllStrings

variable {F : Type} [PyFloat F]

theorem all_quote {P : CodePoint → Bool} (hP : AsciiPass P) (s : PyStr) :
    (quote s).all P = (s.flatMap escapeChar).all P := by
  have hmark : (py "\"").all P = true := hP.all rfl
  rw [quote, List.all_append, List.all_append, hmark, Bool.true_and, Bool.and_true]

theorem all_itemSep {P : CodePoint → Bool} (hP : AsciiPass P) (spaced : Bool) :
    (itemSep spaced).all P = true := by
  cases spaced <;> exact hP.all rfl

theorem all_keySep {P : CodePoint → Bool} (hP : AsciiPass P) (spaced : Bool) :
    (keySep spaced).all P = true := by
  cases spaced <;> exact hP.all rfl

mutual
/-- Beyond printing ASCII, an emitted text holds what its escaped strings hold. -/
theorem all_emit {P : CodePoint → Bool} (hP : AsciiPass P) (spaced : Bool) : ∀ v : Json F,
    (v.emit spaced).all P = v.allStrings fun s ↦ (s.flatMap escapeChar).all P
  | .null => hP.all rfl
  | .bool true => hP.all rfl
  | .bool false => hP.all rfl
  | .int i => hP.all (ascii_intText i)
  | .float x => hP.all (ascii_floatText _)
  | .str s => all_quote hP s
  | .arr xs => by
    have hopen : (py "[").all P = true := hP.all rfl
    rw [Json.emit, List.all_append, hopen, Bool.true_and, all_emitElems hP spaced xs, Json.allStrings]
  | .obj d => by
    have hopen : (py "\x7b").all P = true := hP.all rfl
    rw [Json.emit, List.all_append, hopen, Bool.true_and, all_emitMembers hP spaced d,
      Json.allStrings]
theorem all_emitElems {P : CodePoint → Bool} (hP : AsciiPass P) (spaced : Bool) :
    ∀ xs : List (Json F), (emitElems spaced xs).all P =
      elemsAllStrings (fun s ↦ (s.flatMap escapeChar).all P) xs
  | [] => hP.all rfl
  | [x] => by
    have hclose : (py "]").all P = true := hP.all rfl
    simp only [emitElems, List.all_append, hclose, all_emit hP spaced x, elemsAllStrings]
  | x :: y :: xs => by
    rw [emitElems, List.all_append, List.all_append, all_emit hP spaced x, all_itemSep hP,
      all_emitElems hP spaced (y :: xs), Bool.and_true]
    rfl
theorem all_emitMembers {P : CodePoint → Bool} (hP : AsciiPass P) (spaced : Bool) :
    ∀ d : List (PyStr × Json F), (emitMembers spaced d).all P =
      membersAllStrings (fun s ↦ (s.flatMap escapeChar).all P) d
  | [] => hP.all rfl
  | [(k, v)] => by
    have hclose : (py "\x7d").all P = true := hP.all rfl
    simp only [emitMembers, List.all_append, all_quote hP, all_keySep hP, hclose,
      all_emit hP spaced v, membersAllStrings, Bool.and_true]
  | (k, v) :: q :: d => by
    simp only [emitMembers, List.all_append, all_quote hP, all_keySep hP, all_itemSep hP,
      all_emit hP spaced v, all_emitMembers hP spaced (q :: d), Bool.and_true]
    rfl
end

theorem all_dumps {P : CodePoint → Bool} (hP : AsciiPass P) (v : Json F) :
    (dumps v).all P = v.allStrings fun s ↦ (s.flatMap escapeChar).all P := by
  rw [dumps, all_emit hP, allStrings_sortKeys]

theorem printing_escapeChar (c : CodePoint) : (escapeChar c).all (fun c ↦ 32 ≤ c.val) = true := by
  have hex (n : Fin 16) : decide (32 ≤ (hexChar n).val) = true := by
    revert n
    decide
  unfold escapeChar
  split_ifs with h34 h92 h10 h13 h9 h12 h8 h32
  iterate 7 rfl
  · rw [List.all_append, List.all_cons, List.all_cons, hex, hex]
    rfl
  · rw [List.all_cons, decide_eq_true (by omega)]
    rfl

/-- Canonical text holds no control character, so no newline. -/
theorem printing_dumps (v : Json F) : ∀ c ∈ dumps v, 32 ≤ c.val := by
  have hall : (dumps v).all (fun c ↦ 32 ≤ c.val) = true := by
    rw [all_dumps (fun c hc _ ↦ decide_eq_true hc)]
    refine allStrings_of_forall (fun s ↦ ?_) v
    rw [List.all_flatMap, List.all_eq_true]
    exact fun c _ ↦ printing_escapeChar c
  intro c hc
  exact of_decide_eq_true (List.all_eq_true.mp hall c hc)

/-! ## Encodable values -/

/-- The string holds no lone surrogate. -/
def scalar (s : PyStr) : Bool := s.all fun c ↦ !c.isSurrogate

theorem scalar_escapeChar (c : CodePoint) :
    (escapeChar c).all (fun c ↦ !c.isSurrogate) = !c.isSurrogate := by
  have hex (n : Fin 16) : (!(hexChar n).isSurrogate) = true := by
    revert n
    decide
  have low (h : c.val < 128) : c.isSurrogate = false := by
    simp only [CodePoint.isSurrogate, Bool.and_eq_false_iff, decide_eq_false_iff_not]
    omega
  unfold escapeChar
  split_ifs with h34 h92 h10 h13 h9 h12 h8 h32
  iterate 7
    rw [low (by omega)]
    rfl
  · rw [low (by omega), List.all_append, List.all_cons, List.all_cons, hex, hex]
    rfl
  · rw [List.all_cons, List.all_nil, Bool.and_true]

/-- Canonical text encodes exactly when no string of the value holds a lone surrogate. -/
theorem encodeUtf8_dumps_isSome (v : Json F) :
    (encodeUtf8 (dumps v)).isSome = v.allStrings scalar := by
  have hscalar : (fun s : PyStr ↦ (s.flatMap escapeChar).all fun c ↦ !c.isSurrogate) = scalar := by
    funext s
    rw [List.all_flatMap, scalar]
    congr 1
    funext c
    exact scalar_escapeChar c
  rw [← hscalar, ← all_dumps, Bool.eq_iff_iff, encodeUtf8_isSome, List.all_eq_true]
  · simp
  · intro c _ hc
    simp only [CodePoint.isSurrogate, Bool.not_eq_true', Bool.and_eq_false_iff,
      decide_eq_false_iff_not]
    omega

theorem loads_dumps {v : Json F} (hwf : v.wf = true) {w : PyStr}
    (hw : ∀ c ∈ w, isSpace c = true) : loads (dumps v ++ w) = some v.sortKeys :=
  loads_emit false (wf_sortKeys v hwf) hw

/-- Two values with one canonical text differ at most in their insertion orders. -/
theorem same_of_dumps_eq {v w : Json F} (hv : v.wf = true) (hw : w.wf = true)
    (h : dumps v = dumps w) : v.Same w := by
  have hloads := loads_dumps hv (w := []) (by simp)
  rw [h, loads_dumps hw (by simp), Option.some.injEq] at hloads
  exact hloads.symm

theorem dumps_eq_of_same {v w : Json F} (h : v.Same w) : dumps v = dumps w := by
  rw [dumps, dumps, h]

end Dumps

end FourCE.Python

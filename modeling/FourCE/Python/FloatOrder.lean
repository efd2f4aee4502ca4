import FourCE.Python.Float
import Mathlib.Data.Nat.Log
import Mathlib.Algebra.Order.Floor.Ring
import Mathlib.Tactic.Linarith
import Mathlib.Tactic.Positivity

/-!
# How floats compare, and what rounding keeps

Comparisons with what is no number are false, and among numbers `<` and `<=` are one linear order.
Rounding keeps signs, and a difference of two doubles that are not negative is finite.
-/

namespace FourCE.Python

/-! ## Order -/

/-- `min(x, y)`: the first unless the second is less. -/
def Double.min (x y : Double) : Double := if y.lt x then y else x

namespace Double

theorem le_trans {x y z : Double} (hxy : x.le y = true) (hyz : y.le z = true) : x.le z = true := by
  cases x <;> cases y <;> cases z <;> simp_all [le]
  · exact hxy.trans hyz
  · grind

theorem le_refl {x : Double} (hx : x ≠ .nan) : x.le x = true := by
  cases x <;> simp_all [le]

theorem le_of_lt {x y : Double} (h : x.lt y = true) : x.le y = true := by
  cases x <;> cases y <;> simp_all [le, lt]
  exact h.le

theorem ne_nan_of_lt {x y : Double} (h : x.lt y = true) : x ≠ .nan ∧ y ≠ .nan := by
  cases x <;> cases y <;> simp_all [lt]

theorem ne_nan_of_le {x y : Double} (h : x.le y = true) : x ≠ .nan ∧ y ≠ .nan := by
  cases x <;> cases y <;> simp_all [le]

/-- Among numbers, what is not less is at least as great. -/
theorem lt_eq_not_le {x y : Double} (hx : x ≠ .nan) (hy : y ≠ .nan) : x.lt y = !y.le x := by
  cases x <;> cases y <;> simp_all [lt, le, Bool.and_comm]
  rw [← decide_not, decide_eq_decide]
  exact not_le.symm

theorem le_of_not_lt {x y : Double} (hx : x ≠ .nan) (hy : y ≠ .nan) (h : x.lt y = false) :
    y.le x = true := by
  rw [lt_eq_not_le hx hy] at h
  simpa using h

theorem lt_of_not_le {x y : Double} (hx : x ≠ .nan) (hy : y ≠ .nan) (h : x.le y = false) :
    y.lt x = true := by
  rw [lt_eq_not_le hy hx, h]
  rfl

theorem lt_of_lt_of_le {x y z : Double} (hxy : x.lt y = true) (hyz : y.le z = true) :
    x.lt z = true := by
  have hx := (ne_nan_of_lt hxy).1
  have hz := (ne_nan_of_le hyz).2
  by_contra h
  rw [Bool.not_eq_true] at h
  have hyx : y.le x = true := le_trans hyz (le_of_not_lt hx hz h)
  rw [lt_eq_not_le hx (ne_nan_of_lt hxy).2, hyx] at hxy
  exact absurd hxy (by decide)

theorem min_le_left {x y : Double} (hx : x ≠ .nan) : (x.min y).le x = true := by
  unfold min
  split
  · exact le_of_lt ‹_›
  · exact le_refl hx

theorem min_le_right {x y : Double} (hx : x ≠ .nan) (hy : y ≠ .nan) : (x.min y).le y = true := by
  unfold min
  split
  · exact le_refl hy
  · exact le_of_not_lt hy hx (Bool.eq_false_iff.mpr ‹_›)

end Double

/-! ## Least elements -/

section MinBy

variable {α : Type} (key : α → Double)

/-- `min(xs, key=key)`: the first of the least; of nothing a `ValueError`. -/
def minBy : List α → Option α
  | [] => none
  | x :: xs => some (xs.foldl (fun best y ↦ if (key y).lt (key best) then y else best) x)

variable {key}

/-- `best` is the first of the least of a list. -/
def FirstLeast (key : α → Double) (best : α) (xs : List α) : Prop :=
  ∃ before after, xs = before ++ best :: after ∧ (∀ x ∈ before, (key best).lt (key x) = true) ∧
    ∀ x ∈ after, (key best).le (key x) = true

theorem FirstLeast.mem {best : α} {xs : List α} (h : FirstLeast key best xs) : best ∈ xs := by
  obtain ⟨before, after, rfl, -, -⟩ := h
  simp

theorem FirstLeast.le {best x : α} {xs : List α} (h : FirstLeast key best xs)
    (hbest : key best ≠ .nan) (hx : x ∈ xs) : (key best).le (key x) = true := by
  obtain ⟨before, after, rfl, hbefore, hafter⟩ := h
  rcases List.mem_append.mp hx with hx | hx
  · exact Double.le_of_lt (hbefore x hx)
  · rcases List.mem_cons.mp hx with rfl | hx
    · exact Double.le_refl hbest
    · exact hafter x hx

/-- One more element takes the place of the best when it is less. -/
theorem FirstLeast.snoc {best y : α} {xs : List α} (h : FirstLeast key best xs)
    (hbest : key best ≠ .nan) (hy : key y ≠ .nan) :
    FirstLeast key (if (key y).lt (key best) then y else best) (xs ++ [y]) := by
  split
  · rename_i hless
    exact ⟨xs, [], rfl, fun x hx ↦ Double.lt_of_lt_of_le hless (h.le hbest hx), by simp⟩
  · rename_i hless
    obtain ⟨before, after, rfl, hbefore, hafter⟩ := h
    refine ⟨before, after ++ [y], by simp, hbefore, fun x hx ↦ ?_⟩
    rcases List.mem_append.mp hx with hx | hx
    · exact hafter x hx
    · rw [List.mem_singleton.mp hx]
      exact Double.le_of_not_lt hy hbest (Bool.eq_false_iff.mpr hless)

theorem firstLeast_foldl {best : α} {seen : List α} (xs : List α) (h : FirstLeast key best seen)
    (hseen : ∀ x ∈ seen, key x ≠ .nan) (hxs : ∀ x ∈ xs, key x ≠ .nan) :
    FirstLeast key (xs.foldl (fun best y ↦ if (key y).lt (key best) then y else best) best)
      (seen ++ xs) := by
  induction xs generalizing best seen with
  | nil => simpa using h
  | cons y ys ih =>
    have hy : key y ≠ .nan := hxs y List.mem_cons_self
    have hstep := ih (h.snoc (hseen best h.mem) hy)
      (fun x hx ↦ (List.mem_append.mp hx).elim (hseen x) fun hx ↦ by rwa [List.mem_singleton.mp hx])
      (fun x hx ↦ hxs x (List.mem_cons_of_mem _ hx))
    simpa using hstep

/-- Where every key is a number, `min` finds the first of the least. -/
theorem firstLeast_of_minBy {best : α} {xs : List α} (h : minBy key xs = some best)
    (hxs : ∀ x ∈ xs, key x ≠ .nan) : FirstLeast key best xs := by
  cases xs with
  | nil => cases h
  | cons x xs =>
    obtain rfl := Option.some.inj h
    have hfirst : FirstLeast key x [x] := ⟨[], [], rfl, by simp, by simp⟩
    exact firstLeast_foldl xs hfirst (by simpa using hxs x List.mem_cons_self)
      (fun y hy ↦ hxs y (List.mem_cons_of_mem _ hy))

end MinBy

/-! ## Rounding -/

theorem powTwo_eq (e : ℤ) : powTwo e = 2 ^ e := by
  unfold powTwo
  split
  · rename_i he
    obtain ⟨n, rfl⟩ := Int.eq_ofNat_of_zero_le he
    simp
  · rename_i he
    obtain ⟨n, rfl⟩ : ∃ n : ℕ, e = -n := ⟨(-e).toNat, by omega⟩
    simp

theorem roundHalfEven_nonneg {q : ℚ} (hq : 0 ≤ q) : 0 ≤ roundHalfEven q := by
  have hfloor : 0 ≤ q.floor := Rat.le_floor_iff.mpr (by simpa using hq)
  unfold roundHalfEven
  grind

/-- Rounding does not pass an integer. -/
theorem roundHalfEven_le {q : ℚ} {n : ℤ} (hq : q ≤ n) : roundHalfEven q ≤ n := by
  have hfloor : (q.floor : ℚ) ≤ q := Rat.floor_le q
  have hn : q.floor ≤ n := by exact_mod_cast hfloor.trans hq
  rcases hn.lt_or_eq with hlt | heq
  · unfold roundHalfEven
    grind
  · have hrest : q - q.floor < 1 / 2 := by
      rw [heq]
      linarith
    unfold roundHalfEven
    simp only [hrest, if_true]
    exact hn

theorem binaryExponent_spec {q : ℚ} (hq : 0 < q) :
    2 ^ binaryExponent q ≤ q ∧ q < 2 ^ (binaryExponent q + 1) := by
  have hnum : q.num.natAbs ≠ 0 := by simpa using hq.ne'
  have hvalue : q = (q.num.natAbs : ℚ) / q.den := by
    conv_lhs => rw [← Rat.num_div_den q]
    rw [Nat.cast_natAbs, abs_of_pos (Rat.num_pos.mpr hq)]
  have hden : (0 : ℚ) < q.den := by exact_mod_cast q.den_pos
  have hn : ((2 : ℚ) ^ Nat.log2 q.num.natAbs) ≤ q.num.natAbs := by
    exact_mod_cast Nat.log2_self_le hnum
  have hn' : (q.num.natAbs : ℚ) < 2 ^ (Nat.log2 q.num.natAbs + 1) := by
    exact_mod_cast Nat.lt_log2_self
  have hd : ((2 : ℚ) ^ Nat.log2 q.den) ≤ q.den := by exact_mod_cast Nat.log2_self_le q.den_nz
  have hd' : (q.den : ℚ) < 2 ^ (Nat.log2 q.den + 1) := by exact_mod_cast Nat.lt_log2_self
  have hlow : (2 : ℚ) ^ ((Nat.log2 q.num.natAbs : ℤ) - Nat.log2 q.den - 1) ≤ q := by
    conv_rhs => rw [hvalue]
    rw [le_div_iff₀ hden]
    calc (2 : ℚ) ^ ((Nat.log2 q.num.natAbs : ℤ) - Nat.log2 q.den - 1) * q.den
        ≤ 2 ^ ((Nat.log2 q.num.natAbs : ℤ) - Nat.log2 q.den - 1) * 2 ^ (Nat.log2 q.den + 1) := by
          exact mul_le_mul_of_nonneg_left hd'.le (zpow_pos two_pos _).le
      _ = 2 ^ Nat.log2 q.num.natAbs := by
          rw [← zpow_natCast, ← zpow_natCast, ← zpow_add₀ two_ne_zero]
          congr 1
          push_cast
          ring
      _ ≤ q.num.natAbs := hn
  have hhigh : q < (2 : ℚ) ^ ((Nat.log2 q.num.natAbs : ℤ) - Nat.log2 q.den + 1) := by
    conv_lhs => rw [hvalue]
    rw [div_lt_iff₀ hden]
    calc (q.num.natAbs : ℚ) < 2 ^ (Nat.log2 q.num.natAbs + 1) := hn'
      _ = 2 ^ ((Nat.log2 q.num.natAbs : ℤ) - Nat.log2 q.den + 1) * 2 ^ Nat.log2 q.den := by
          rw [← zpow_natCast, ← zpow_natCast, ← zpow_add₀ two_ne_zero]
          congr 1
          push_cast
          ring
      _ ≤ 2 ^ ((Nat.log2 q.num.natAbs : ℤ) - Nat.log2 q.den + 1) * q.den :=
          mul_le_mul_of_nonneg_left hd (zpow_pos two_pos _).le
  unfold binaryExponent
  simp only [powTwo_eq]
  split
  · exact ⟨‹_›, hhigh⟩
  · refine ⟨hlow, ?_⟩
    rw [sub_add_cancel]
    exact not_le.mp ‹_›

/-- The greatest finite double. -/
def largest : ℚ := (2 ^ 53 - 1) * 2 ^ 971

theorem largest_lt : largest < 2 ^ (1024 : ℤ) := by
  calc largest < 2 ^ 53 * 2 ^ 971 :=
        mul_lt_mul_of_pos_right (by norm_num) (pow_pos two_pos 971)
    _ = 2 ^ (1024 : ℤ) := by
        rw [← pow_add]
        exact (zpow_natCast 2 1024).symm

theorem rounded_lt {q : ℚ} (hq : 0 < q) (hmax : q ≤ largest) {e : ℤ}
    (he : e = max (binaryExponent q - 52) (-1074)) :
    (roundHalfEven (q / 2 ^ e) : ℚ) * 2 ^ e < 2 ^ (1024 : ℤ) := by
  obtain ⟨hlow, hhigh⟩ := binaryExponent_spec hq
  have hscale : (0 : ℚ) < 2 ^ e := zpow_pos two_pos e
  by_cases hbig : binaryExponent q ≤ 1022
  · have hsmall : q / 2 ^ e ≤ ((2 ^ 53 : ℤ) : ℚ) := by
      rw [div_le_iff₀ hscale]
      calc q ≤ 2 ^ (binaryExponent q + 1) := hhigh.le
        _ ≤ 2 ^ (53 + e) := zpow_le_zpow_right₀ one_le_two (by omega)
        _ = ((2 ^ 53 : ℤ) : ℚ) * 2 ^ e := by
          rw [zpow_add₀ two_ne_zero]
          norm_num
    calc (roundHalfEven (q / 2 ^ e) : ℚ) * 2 ^ e ≤ ((2 ^ 53 : ℤ) : ℚ) * 2 ^ e :=
          mul_le_mul_of_nonneg_right (by exact_mod_cast roundHalfEven_le hsmall) hscale.le
      _ = 2 ^ (53 + e) := by
          rw [zpow_add₀ two_ne_zero]
          norm_num
      _ < 2 ^ (1024 : ℤ) := zpow_lt_zpow_right₀ one_lt_two (by omega)
  · have htop : binaryExponent q < 1024 := by
      have hlt : (2 : ℚ) ^ binaryExponent q < 2 ^ (1024 : ℤ) :=
        lt_of_le_of_lt (hlow.trans hmax) largest_lt
      exact (zpow_lt_zpow_iff_right₀ one_lt_two).mp hlt
    have hexp : e = 971 := by omega
    have hsmall : q / 2 ^ e ≤ ((2 ^ 53 - 1 : ℤ) : ℚ) := by
      rw [div_le_iff₀ hscale, hexp]
      refine hmax.trans (le_of_eq ?_)
      norm_num [largest]
    calc (roundHalfEven (q / 2 ^ e) : ℚ) * 2 ^ e ≤ ((2 ^ 53 - 1 : ℤ) : ℚ) * 2 ^ e :=
          mul_le_mul_of_nonneg_right (by exact_mod_cast roundHalfEven_le hsmall) hscale.le
      _ < 2 ^ (1024 : ℤ) := by
          rw [hexp]
          refine lt_of_le_of_lt (le_of_eq ?_) largest_lt
          norm_num [largest]

theorem rounded_nonneg {q : ℚ} (hq : 0 ≤ q) (e : ℤ) :
    0 ≤ (roundHalfEven (q / 2 ^ e) : ℚ) * 2 ^ e := by
  have hscale : (0 : ℚ) < 2 ^ e := zpow_pos two_pos e
  have hround : 0 ≤ roundHalfEven (q / 2 ^ e) := roundHalfEven_nonneg (div_nonneg hq hscale.le)
  exact mul_nonneg (by exact_mod_cast hround) hscale.le

namespace Double

theorem ofRat_ne_nan (q : ℚ) : ofRat q ≠ .nan := by
  unfold ofRat
  grind

theorem ofRat_nonneg {q : ℚ} (hq : 0 ≤ q) : (finite 0).le (ofRat q) = true := by
  have hpos : ¬q < 0 := not_lt.mpr hq
  unfold ofRat
  simp only [hpos, if_false, decide_false, powTwo_eq]
  split
  · rfl
  · split
    · rfl
    · exact decide_eq_true (rounded_nonneg hq _)

/-- What is no greater than the greatest double is rounded to a finite one. -/
theorem ofRat_finite {q : ℚ} (hq : |q| ≤ largest) : ∃ v, ofRat q = .finite v := by
  unfold ofRat
  split
  · exact ⟨0, rfl⟩
  · rename_i hne
    have hsize : (if q < 0 then -q else q) = |q| := by
      split
      · rw [abs_of_neg ‹_›]
      · rw [abs_of_nonneg (not_lt.mp ‹_›)]
    have hlt := rounded_lt (abs_pos.mpr hne) hq rfl
    simp only [hsize, powTwo_eq]
    rw [if_neg (not_le.mpr hlt)]
    exact ⟨_, rfl⟩

end Double

theorem powTen_nonneg (e : ℤ) : 0 ≤ powTen e := by
  unfold powTen
  split <;> positivity

/-- A number written without a sign is not negative, and is a number. -/
theorem floatOf_nonneg [Unicode] {s : PyStr} {x : Double} (h : floatOf s = some x) :
    (Double.finite 0).le x = true := by
  unfold floatOf at h
  split at h
  · cases h
  · obtain ⟨ds, -, rfl⟩ := Option.map_eq_some_iff.mp h
    exact Double.ofRat_nonneg (Nat.cast_nonneg _)
  · split at h
    · cases h
    · simp only [Option.bind_eq_bind, Option.bind_eq_some_iff, Option.pure_def,
        Option.some.injEq] at h
      obtain ⟨ds, -, fs, -, rfl⟩ := h
      exact Double.ofRat_nonneg (add_nonneg (Nat.cast_nonneg _)
        (div_nonneg (Nat.cast_nonneg _) (powTen_nonneg _)))

end FourCE.Python

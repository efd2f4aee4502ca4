import Mathlib.Data.Int.ModEq
import Mathlib.Tactic.Common
import Mathlib.Tactic.Linarith
import Mathlib.Tactic.Ring

/-!
# Arithmetic progressions in time

A progression that may end after a number of elements, and its first element after a given time.  Which
element that is depends on the time's distance from the start alone, so two progressions of one step go on
alike where their starts are whole steps apart.
-/

namespace FourCE.Library

structure Progression where
  start : ℤ
  step : ℤ
  count : Option ℕ
  step_pos : 0 < step

namespace Progression

variable (p q : Progression) (now : ℤ)

/-- The element with an index. -/
def nth (i : ℕ) : ℤ := p.start + i * p.step

/-- Whether there are elements up to an index. -/
def reaches (i : ℕ) : Bool := p.count.all fun n ↦ decide (i < n)

/-- The index of the first element after a time, of a progression without an end. -/
def index : ℕ := if now < p.start then 0 else ((now - p.start) / p.step).toNat + 1

/-- The first element after a time. -/
def after : Option ℤ := if p.reaches (p.index now) then some (p.nth (p.index now)) else none

/-- What the first element after a time is, `none` where there is no later one. -/
structure IsFirstAfter (first : Option ℤ) : Prop where
  least : ∀ t, first = some t → (∃ i, p.reaches i = true ∧ t = p.nth i) ∧ now < t ∧
    ∀ i, p.reaches i = true → now < p.nth i → t ≤ p.nth i
  ended : first = none → ∀ i, p.reaches i = true → p.nth i ≤ now

variable {p q now}

theorem reaches_of_le {i j : ℕ} (h : p.reaches j = true) (hij : i ≤ j) : p.reaches i = true := by
  unfold reaches at h ⊢
  cases hcount : p.count with
  | none => rfl
  | some n =>
    rw [hcount, Option.all_some, decide_eq_true_eq] at h
    rw [Option.all_some, decide_eq_true_eq]
    omega

theorem nth_le_nth {i j : ℕ} (hij : i ≤ j) : p.nth i ≤ p.nth j := by
  unfold nth
  have hmul : (i : ℤ) * p.step ≤ j * p.step :=
    mul_le_mul_of_nonneg_right (by exact_mod_cast hij) p.step_pos.le
  omega

/-- Up to its index everything is past. -/
theorem nth_lt_iff (i : ℕ) : now < p.nth i ↔ p.index now ≤ i := by
  have hpos := p.step_pos
  unfold nth index
  split_ifs with hbefore
  · have hnonneg : 0 ≤ (i : ℤ) * p.step := mul_nonneg (by omega) hpos.le
    exact ⟨fun _ ↦ Nat.zero_le i, fun _ ↦ by omega⟩
  · have hquotient : 0 ≤ (now - p.start) / p.step := Int.ediv_nonneg (by omega) hpos.le
    have hlt : (now - p.start) / p.step < i ↔ now - p.start < i * p.step := Int.ediv_lt_iff_lt_mul hpos
    constructor
    · intro h
      have hi := hlt.mpr (by omega)
      omega
    · intro h
      have hi := hlt.mp (by omega)
      omega

theorem isFirstAfter_after : p.IsFirstAfter now (p.after now) := by
  unfold after
  constructor
  · intro t ht
    split_ifs at ht with hreaches
    obtain rfl := Option.some.inj ht
    exact ⟨⟨_, hreaches, rfl⟩, (nth_lt_iff _).mpr le_rfl, fun i _ hi ↦ nth_le_nth ((nth_lt_iff i).mp hi)⟩
  · intro hnone i hi
    split_ifs at hnone with hreaches
    by_contra hlate
    exact hreaches (reaches_of_le hi ((nth_lt_iff i).mp (by omega)))

theorem IsFirstAfter.unique {a b : Option ℤ} (ha : p.IsFirstAfter now a) (hb : p.IsFirstAfter now b) :
    a = b := by
  have hsome : ∀ {a b : Option ℤ}, p.IsFirstAfter now a → p.IsFirstAfter now b → ∀ t, a = some t →
      b = some t := by
    intro a b ha hb t hat
    obtain ⟨⟨i, hi, rfl⟩, hnow, hleast⟩ := ha.least t hat
    cases hbu : b with
    | none =>
      have hover := hb.ended hbu i hi
      omega
    | some u =>
      obtain ⟨⟨j, hj, rfl⟩, hnow', hleast'⟩ := hb.least u hbu
      rw [le_antisymm (hleast' i hi hnow) (hleast j hj hnow')]
  cases hat : a with
  | some t => exact (hsome ha hb t hat).symm
  | none =>
    cases hbu : b with
    | none => rfl
    | some u => exact absurd (hsome hb ha u hbu) (by rw [hat]; nofun)

theorem isFirstAfter_iff {first : Option ℤ} : p.IsFirstAfter now first ↔ first = p.after now :=
  ⟨fun h ↦ h.unique isFirstAfter_after, fun h ↦ h ▸ isFirstAfter_after⟩

theorem after_of_lt (h : now < p.start) : p.after now = if p.reaches 0 then some p.start else none := by
  have hindex : p.index now = 0 := if_pos h
  rw [after, hindex]
  simp [nth]

/-- From its start on a progression goes on one step after the time, less what is over whole steps. -/
theorem after_of_le (h : p.start ≤ now) :
    p.after now = if p.reaches (((now - p.start) / p.step).toNat + 1) then
      some (now - (now - p.start) % p.step + p.step) else none := by
  have hindex : p.index now = ((now - p.start) / p.step).toNat + 1 := if_neg (by omega)
  have hquotient : 0 ≤ (now - p.start) / p.step := Int.ediv_nonneg (by omega) p.step_pos.le
  have hnth : p.nth (((now - p.start) / p.step).toNat + 1) =
      now - (now - p.start) % p.step + p.step := by
    have hdivision := Int.emod_add_mul_ediv (now - p.start) p.step
    calc
      p.nth (((now - p.start) / p.step).toNat + 1)
        = p.start + ((now - p.start) / p.step + 1) * p.step := by
          unfold nth
          push_cast
          rw [Int.toNat_of_nonneg hquotient]
      _ = now - (now - p.start) % p.step + p.step := by linarith
  rw [after, hindex, hnth]

/-- The elements after a time are the same where the starts are whole steps apart. -/
theorem same_phase_iff {start start' step : ℤ} : now - (now - start) % step + step =
    now - (now - start') % step + step ↔ step ∣ start - start' := by
  have hmod : (now - start) % step = (now - start') % step ↔ step ∣ start - start' := by
    have hdvd := Int.modEq_iff_dvd (n := step) (a := now - start) (b := now - start')
    rwa [show now - start' - (now - start) = start - start' by ring] at hdvd
  rw [← hmod]
  omega

end Progression

end FourCE.Library

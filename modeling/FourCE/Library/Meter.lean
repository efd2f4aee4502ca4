import Mathlib.Algebra.Order.Group.Defs
import Mathlib.Data.List.Basic

/-!
# Meters read against a mark

A meter adds up the amounts it is told of, and can be set back to nothing, which opens a new
epoch.  A reading is compared with a mark taken earlier: within one epoch by the difference, across
epochs by the whole of what the meter shows.  What was counted before the last reset is then not in
the reading.
-/

namespace FourCE.Library

structure Meter (M : Type*) where
  epoch : ℕ
  total : M

namespace Meter

variable {M : Type*} [AddCommGroup M]

inductive Event (M : Type*)
  | count (amount : M)
  | reset

def step (r : Meter M) : Event M → Meter M
  | .count amount => ⟨r.epoch, r.total + amount⟩
  | .reset => ⟨r.epoch + 1, 0⟩

def run (r : Meter M) (events : List (Event M)) : Meter M := events.foldl step r

/-- The reading against a mark. -/
def since (mark r : Meter M) : M := if r.epoch = mark.epoch then r.total - mark.total else r.total

def resets : List (Event M) → ℕ
  | [] => 0
  | .count _ :: events => resets events
  | .reset :: events => resets events + 1

/-- All that was counted. -/
def counted : List (Event M) → M
  | [] => 0
  | .count amount :: events => amount + counted events
  | .reset :: events => counted events

/-- What was counted before the last reset. -/
def lost : List (Event M) → M
  | [] => 0
  | .count amount :: events => if resets events = 0 then 0 else amount + lost events
  | .reset :: events => lost events

/-- What was counted after the last reset, or at all where there was none. -/
def kept : List (Event M) → M
  | [] => 0
  | .count amount :: events => if resets events = 0 then amount + kept events else kept events
  | .reset :: events => kept events

@[simp]
theorem run_nil (r : Meter M) : r.run [] = r := rfl

@[simp]
theorem run_cons (r : Meter M) (e : Event M) (events : List (Event M)) :
    r.run (e :: events) = (r.step e).run events := rfl

theorem run_append (r : Meter M) (events more : List (Event M)) :
    r.run (events ++ more) = (r.run events).run more := List.foldl_append

theorem run_epoch (r : Meter M) (events : List (Event M)) :
    (r.run events).epoch = r.epoch + resets events := by
  induction events generalizing r with
  | nil => rfl
  | cons e events ih =>
    rw [run_cons, ih]
    cases e with
    | count amount => rfl
    | reset => simp only [step, resets, Nat.add_assoc, Nat.add_comm 1]

theorem lost_eq_zero {events : List (Event M)} (h : resets events = 0) : lost events = 0 := by
  cases events with
  | nil => rfl
  | cons e events =>
    cases e with
    | count amount => exact if_pos h
    | reset => exact absurd h (Nat.succ_ne_zero _)

/-- Nothing that was counted is neither lost nor kept. -/
theorem counted_eq (events : List (Event M)) : counted events = lost events + kept events := by
  induction events with
  | nil => simp only [counted, lost, kept, add_zero]
  | cons e events ih =>
    cases e with
    | reset => exact ih
    | count amount =>
      rw [counted, lost, kept, ih]
      split_ifs with hnone
      · rw [lost_eq_zero hnone, zero_add, zero_add]
      · rw [add_assoc]

theorem run_total (r : Meter M) (events : List (Event M)) :
    (r.run events).total = if resets events = 0 then r.total + kept events else kept events := by
  induction events generalizing r with
  | nil => simp [resets, kept]
  | cons e events ih =>
    rw [run_cons, ih]
    cases e with
    | count amount =>
      simp only [resets, step, kept]
      split_ifs <;> simp only [add_assoc]
    | reset =>
      simp only [resets, step, kept, Nat.succ_ne_zero, if_false, zero_add, ite_self]

/-- The reading after a run is what the run kept. -/
theorem since_run (r : Meter M) (events : List (Event M)) : since r (r.run events) = kept events := by
  rw [since, run_epoch, run_total]
  by_cases hnone : resets events = 0
  · rw [if_pos (by omega), if_pos hnone, add_sub_cancel_left]
  · rw [if_neg (by omega), if_neg hnone]

section Order

variable [PartialOrder M] [IsOrderedAddMonoid M]

/-- The reading is short of what was counted exactly by what was lost. -/
theorem counted_le_since_iff (r : Meter M) (events : List (Event M)) :
    counted events ≤ since r (r.run events) ↔ lost events ≤ 0 := by
  rw [since_run, counted_eq, add_le_iff_nonpos_left]

theorem lost_nonneg {events : List (Event M)} (hpos : ∀ m, Event.count m ∈ events → 0 ≤ m) :
    0 ≤ lost events := by
  induction events with
  | nil => exact le_refl _
  | cons e events ih =>
    have hrest := ih fun m hm ↦ hpos m (List.mem_cons_of_mem _ hm)
    cases e with
    | reset => exact hrest
    | count m =>
      rw [lost]
      split_ifs
      · exact le_refl _
      · exact add_nonneg (hpos m List.mem_cons_self) hrest

/-- Nothing is lost exactly when all that is counted ahead of a reset is nothing. -/
theorem lost_nonpos_iff {events : List (Event M)} (hpos : ∀ m, Event.count m ∈ events → 0 ≤ m) :
    lost events ≤ 0 ↔
      ∀ early m late, events = early ++ Event.count m :: late → resets late ≠ 0 → m = 0 := by
  induction events with
  | nil => simp [lost]
  | cons e events ih =>
    have hrest := fun m hm ↦ hpos m (List.mem_cons_of_mem _ hm)
    have hsplit : (∀ early m late, e :: events = early ++ Event.count m :: late →
        resets late ≠ 0 → m = 0) ↔
        (∀ m, e = .count m → resets events ≠ 0 → m = 0) ∧ lost events ≤ 0 := by
      rw [ih hrest]
      constructor
      · intro h
        exact ⟨fun m he ↦ h [] m events (by rw [he, List.nil_append]),
          fun early m late hev ↦ h (e :: early) m late (by rw [hev, List.cons_append])⟩
      · rintro ⟨hfirst, hlater⟩ early m late hev
        rcases List.cons_eq_append_iff.mp hev with ⟨-, hnow⟩ | ⟨early, -, hev⟩
        · obtain ⟨rfl, rfl⟩ := List.cons.inj hnow
          exact hfirst m rfl
        · exact hlater early m late hev
    rw [hsplit]
    cases e with
    | reset => simp [lost]
    | count m =>
      rw [lost]
      split_ifs with hnone
      · simp [hnone, lost_eq_zero hnone]
      · have hm := hpos m List.mem_cons_self
        simp only [Event.count.injEq, ne_eq, hnone, not_false_eq_true, forall_true_left,
          forall_eq']
        have hlost := lost_nonneg hrest
        exact ⟨fun h ↦ ⟨le_antisymm (le_trans (le_add_of_nonneg_right hlost) h) hm,
          le_trans (le_add_of_nonneg_left hm) h⟩, fun h ↦ by rw [h.1, zero_add]; exact h.2⟩

end Order

/-! ## Systems that drive a meter -/

section Trace

variable {σ α : Type*} (next : σ → α → σ) (event : σ → α → Event M)

/-- What a run of a system tells the meter. -/
def trace : σ → List α → List (Event M)
  | _, [] => []
  | s, a :: as => event s a :: trace (next s a) as

variable {next event}

/-- A system whose every step shows on the meter shows its whole run on it. -/
theorem run_trace {meter : σ → Meter M}
    (hstep : ∀ s a, meter (next s a) = (meter s).step (event s a)) (s : σ) (as : List α) :
    meter (as.foldl next s) = (meter s).run (trace next event s as) := by
  induction as generalizing s with
  | nil => rfl
  | cons a as ih => rw [List.foldl_cons, ih, hstep, trace, run_cons]

omit [AddCommGroup M] in
theorem mem_trace {s : σ} {as : List α} {e : Event M} (h : e ∈ trace next event s as) :
    ∃ t a, e = event t a := by
  induction as generalizing s with
  | nil => cases h
  | cons a as ih =>
    rcases List.mem_cons.mp h with rfl | h
    · exact ⟨s, a, rfl⟩
    · exact ih h

omit [AddCommGroup M] in
/-- An event of the run is that of a step, and the events after it those of the steps after. -/
theorem trace_eq_append_cons {s : σ} {as : List α} {early late : List (Event M)} {e : Event M}
    (h : trace next event s as = early ++ e :: late) :
    ∃ before a after, as = before ++ a :: after ∧ e = event (before.foldl next s) a ∧
      late = trace next event (next (before.foldl next s) a) after := by
  induction as generalizing s early with
  | nil => simp [trace] at h
  | cons a as ih =>
    rcases List.cons_eq_append_iff.mp h with ⟨-, hnow⟩ | ⟨early, -, hlater⟩
    · obtain ⟨rfl, rfl⟩ := List.cons.inj hnow
      exact ⟨[], a, as, rfl, rfl, rfl⟩
    · obtain ⟨before, b, after, rfl, he, hlate⟩ := ih hlater
      exact ⟨a :: before, b, after, rfl, he, hlate⟩

omit [AddCommGroup M] in
theorem trace_append_cons (s : σ) (before : List α) (a : α) (after : List α) :
    trace next event s (before ++ a :: after) = trace next event s before ++
      event (before.foldl next s) a :: trace next event (next (before.foldl next s) a) after := by
  induction before generalizing s with
  | nil => rfl
  | cons b before ih => rw [List.cons_append, trace, ih, trace, List.cons_append, List.foldl_cons]

variable {isReset : α → Prop}

omit [AddCommGroup M] in
/-- Resets of the run, where it does not depend on the state which steps reset. -/
theorem resets_trace_ne_zero (hreset : ∀ s a, event s a = .reset ↔ isReset a) (s : σ)
    (as : List α) : resets (trace next event s as) ≠ 0 ↔ ∃ a ∈ as, isReset a := by
  induction as generalizing s with
  | nil => simp [trace, resets]
  | cons a as ih =>
    have hrest := ih (next s a)
    have hfirst := hreset s a
    simp only [List.mem_cons, exists_eq_or_imp, trace]
    rw [← hrest, ← hfirst]
    cases event s a with
    | count m => simp [resets]
    | reset => simp [resets]

/-- A run loses nothing exactly when no step ahead of a reset counts anything. -/
theorem lost_trace_nonpos_iff [PartialOrder M] [IsOrderedAddMonoid M]
    (hreset : ∀ s a, event s a = .reset ↔ isReset a)
    (hpos : ∀ s a m, event s a = .count m → 0 ≤ m) (s : σ) (as : List α) :
    lost (trace next event s as) ≤ 0 ↔
      ∀ before a after m, as = before ++ a :: after → (∃ b ∈ after, isReset b) →
        event (before.foldl next s) a = .count m → m = 0 := by
  have hmem : ∀ m, Event.count m ∈ trace next event s as → 0 ≤ m := by
    intro m hm
    obtain ⟨t, a, ha⟩ := mem_trace hm
    exact hpos t a m ha.symm
  rw [lost_nonpos_iff hmem]
  constructor
  · rintro h before a after m rfl hafter ha
    refine h _ m _ (by rw [trace_append_cons, ha]) ?_
    exact (resets_trace_ne_zero hreset _ after).mpr hafter
  · intro h early m late htrace hlate
    obtain ⟨before, a, after, has, ha, rfl⟩ := trace_eq_append_cons htrace
    exact h before a after m has ((resets_trace_ne_zero hreset _ after).mp hlate) ha.symm

end Trace

end Meter

end FourCE.Library

import FourCE.Egress.Watch
import FourCE.Library.Meter
import Mathlib.Algebra.Order.Group.Int

/-!
# The evidence of a run

What a run is told of the flows observed since its mark.  The counters of a watch are meters, whose
epoch is the generation of the window: a reset opens a new one, and with it the evidence loses what
was counted before.
-/

namespace FourCE.Egress

open FourCE.Python FourCE.Library

/-! ## Flows counted anew -/

/-- The flows of a kind a sample counts anew: those not remembered, each once. -/
def freshFlows (kind : Kind) (now : ℚ) :
    List ((ℕ × PyStr × PyStr) × ℚ) → List Observed → ℕ
  | _, [] => 0
  | seen, o :: observed =>
    (if (seen.lookup o.key).isNone ∧ o.kind = kind then 1 else 0) +
      freshFlows kind now (assign seen o.key now) observed

/-- The flows of a kind an operation counts anew. -/
def EgressWatch.newly (w : EgressWatch) (kind : Kind) : Op → ℕ
  | .commit => (w.pending.map fun p ↦ freshFlows kind p.1 w.seen p.2).getD 0
  | _ => 0

variable [IpAddress]

/-- The flows of a kind a run counts anew. -/
def EgressWatch.newlyCounted (kind : Kind) : EgressWatch → List Op → ℕ
  | _, [] => 0
  | w, op :: ops => w.newly kind op + EgressWatch.newlyCounted kind (w.step op) ops

/-- No flow of the kind is newly counted ahead of a reset. -/
def NoneBeforeReset (w : EgressWatch) (ops : List Op) (kind : Kind) : Prop :=
  ∀ before op after, ops = before ++ op :: after → (∃ now, Op.reset now ∈ after) →
    (w.run before).newly kind op = 0

/-! ## What an operation does to the counters -/

omit [IpAddress] in
theorem count_flows (kind : Kind) (now : ℚ) (w : EgressWatch) (o : Observed) :
    (w.count now o).flows kind =
      w.flows kind + if (w.seen.lookup o.key).isNone ∧ o.kind = kind then 1 else 0 := by
  simp only [EgressWatch.count]
  cases (w.seen.lookup o.key).isNone with
  | false => simp
  | true =>
    by_cases hkind : o.kind = kind
    · subst hkind
      simp
    · simp [hkind, Function.update_of_ne (Ne.symm hkind)]

omit [IpAddress] in
theorem foldl_count_flows (kind : Kind) (now : ℚ) (observed : List Observed) (w : EgressWatch) :
    (observed.foldl (EgressWatch.count now) w).flows kind =
      w.flows kind + freshFlows kind now w.seen observed := by
  induction observed generalizing w with
  | nil => rfl
  | cons o observed ih =>
    rw [List.foldl_cons, ih, count_flows, freshFlows, Nat.add_assoc]
    rfl

omit [IpAddress] in
theorem foldl_count_generation (now : ℚ) (observed : List Observed) (w : EgressWatch) :
    (observed.foldl (EgressWatch.count now) w).generation = w.generation := by
  induction observed generalizing w with
  | nil => rfl
  | cons o observed ih => rw [List.foldl_cons, ih]; rfl

omit [IpAddress] in
@[simp]
theorem forget_flows (w : EgressWatch) (now : ℚ) : (w.forget now).flows = w.flows := by
  rw [EgressWatch.forget]
  split_ifs <;> rfl

omit [IpAddress] in
@[simp]
theorem forget_generation (w : EgressWatch) (now : ℚ) :
    (w.forget now).generation = w.generation := by
  rw [EgressWatch.forget]
  split_ifs <;> rfl

omit [IpAddress] in
theorem commit_flows (w : EgressWatch) (kind : Kind) :
    w.commit.flows kind = w.flows kind + w.newly kind .commit := by
  rw [EgressWatch.commit, EgressWatch.newly]
  cases w.pending with
  | none => rfl
  | some p => simp [foldl_count_flows]

omit [IpAddress] in
theorem commit_generation (w : EgressWatch) : w.commit.generation = w.generation := by
  rw [EgressWatch.commit]
  cases w.pending with
  | none => rfl
  | some p => simp [foldl_count_generation]

/-! ## The counters as meters -/

/-- The counter of a kind. -/
def EgressWatch.meter (kind : Kind) (w : EgressWatch) : Meter ℤ := ⟨w.generation, w.flows kind⟩

/-- What an operation tells the counter of a kind. -/
def meterEvent (kind : Kind) (w : EgressWatch) : Op → Meter.Event ℤ
  | .reset _ => .reset
  | op => .count (w.newly kind op)

omit [IpAddress] in
theorem meterEvent_eq_reset (kind : Kind) (w : EgressWatch) (op : Op) :
    meterEvent kind w op = .reset ↔ ∃ now, op = .reset now := by
  cases op <;> simp [meterEvent]

omit [IpAddress] in
theorem meterEvent_count {kind : Kind} {w : EgressWatch} {op : Op} {m : ℤ}
    (h : meterEvent kind w op = .count m) : m = w.newly kind op := by
  cases op <;> simp_all [meterEvent]

/-- Every operation shows on the counters as it does on a meter. -/
theorem meter_step (kind : Kind) (w : EgressWatch) (op : Op) :
    (w.step op).meter kind = (w.meter kind).step (meterEvent kind w op) := by
  cases op with
  | commit =>
    simp [EgressWatch.meter, EgressWatch.step, meterEvent, Meter.step, commit_flows,
      commit_generation]
  | reset now => rfl
  | start =>
    simp only [EgressWatch.step]
    split_ifs <;> simp [EgressWatch.meter, meterEvent, Meter.step, EgressWatch.newly]
  | exit =>
    simp only [EgressWatch.step]
    split_ifs <;> simp [EgressWatch.meter, meterEvent, Meter.step, EgressWatch.newly]
  | _ =>
    simp [EgressWatch.meter, EgressWatch.step, meterEvent, Meter.step, EgressWatch.newly,
      EgressWatch.setEndpoints, EgressWatch.observe]

theorem meter_run (kind : Kind) (w : EgressWatch) (ops : List Op) :
    (w.run ops).meter kind =
      (w.meter kind).run (Meter.trace EgressWatch.step (meterEvent kind) w ops) :=
  Meter.run_trace (meter_step kind) w ops

theorem counted_trace (kind : Kind) (w : EgressWatch) (ops : List Op) :
    Meter.counted (Meter.trace EgressWatch.step (meterEvent kind) w ops) =
      (w.newlyCounted kind ops : ℤ) := by
  induction ops generalizing w with
  | nil => rfl
  | cons op ops ih =>
    rw [Meter.trace, EgressWatch.newlyCounted]
    cases op with
    | reset now =>
      rw [meterEvent, Meter.counted, ih, EgressWatch.newly, Nat.zero_add]
      rintro ⟨⟩
    | _ => simp only [meterEvent, Meter.counted, ih, Nat.cast_add]

/-- The reading against the mark is short of what was newly counted unless nothing was counted
ahead of a reset. -/
theorem newlyCounted_le_since_iff (kind : Kind) (w : EgressWatch) (ops : List Op) :
    (w.newlyCounted kind ops : ℤ) ≤ Meter.since (w.meter kind) ((w.run ops).meter kind) ↔
      NoneBeforeReset w ops kind := by
  rw [← counted_trace, meter_run, Meter.counted_le_since_iff,
    Meter.lost_trace_nonpos_iff (meterEvent_eq_reset kind) fun v op m h ↦ by
      rw [meterEvent_count h]; exact Int.natCast_nonneg _]
  constructor
  · rintro h before op after rfl ⟨now, hnow⟩
    by_cases hreset : ∃ now, op = .reset now
    · obtain ⟨now, rfl⟩ := hreset
      rfl
    · have hcount : meterEvent kind (w.run before) op = .count ((w.run before).newly kind op) := by
        cases op <;> simp_all [meterEvent]
      exact Int.natCast_eq_zero.mp (h before op after _ rfl ⟨_, hnow, now, rfl⟩ hcount)
  · rintro h before op after m hops ⟨_, hmem, now, rfl⟩ hcount
    rw [meterEvent_count hcount]
    exact Int.natCast_eq_zero.mpr (h before op after hops ⟨now, hmem⟩)

/-! ## The evidence -/

omit [IpAddress] in
theorem evidence_of_observed {w v : EgressWatch} {e : Evidence}
    (h : v.sinceMark (some w.mark) = .observed e) :
    e.external = Meter.since (w.meter .external) (v.meter .external) ∧
      e.lanOut = Meter.since (w.meter .lanOut) (v.meter .lanOut) := by
  simp only [EgressWatch.sinceMark] at h
  by_cases halive : v.alive = true
  · by_cases hgen : v.generation = w.generation
    all_goals
      simp only [halive, hgen, EgressWatch.mark, Bool.not_true, Bool.false_eq_true, if_false,
        if_true] at h
      split_ifs at h
      obtain rfl := Answer.observed.inj h
      simp [Meter.since, EgressWatch.meter, hgen]
  · simp [halive] at h

/-- The evidence is short of the external flows a run newly counted exactly when some were
counted ahead of a reset, and so for the unexpected flows of the local network. -/
theorem evidence_in_full_iff (w : EgressWatch) (ops : List Op) (e : Evidence)
    (h : (w.run ops).sinceMark (some w.mark) = .observed e) :
    ((w.newlyCounted .external ops : ℤ) ≤ e.external ↔ NoneBeforeReset w ops .external) ∧
      ((w.newlyCounted .lanOut ops : ℤ) ≤ e.lanOut ↔ NoneBeforeReset w ops .lanOut) := by
  obtain ⟨hexternal, hlan⟩ := evidence_of_observed h
  rw [hexternal, hlan]
  exact ⟨newlyCounted_le_since_iff .external w ops, newlyCounted_le_since_iff .lanOut w ops⟩

/-! ## A window reset during a run -/

/-- The addresses of the sample: one beyond the local network. -/
def sampleAddresses : IpAddress where
  parse ip :=
    if ip = py "93.184.216.34" then some (⟨false, false, false, false, false⟩, none) else none

/-- A watch that runs and has the backend in its scope. -/
def sampleWatch : EgressWatch :=
  { EgressWatch.init 0 with
    alive := true
    scope := [(7, ⟨py "python.exe", py "python.exe", .backend, [8080]⟩)] }

def sampleConn : Conn where
  laddr := some ⟨py "10.0.0.5", 50300⟩
  raddr := some ⟨py "93.184.216.34", 443⟩
  status := py "ESTABLISHED"

/-- A sample that finds the backend connected to the outside. -/
def leakSeen : List Op := [.observe 1 [(7, sampleConn)], .commit]

omit [IpAddress] in
theorem evidence_in_full_leak :
    (@EgressWatch.run sampleAddresses sampleWatch leakSeen).sinceMark (some sampleWatch.mark) =
        .observed ⟨1, 0, 1, 1⟩ ∧
      ((@EgressWatch.newlyCounted sampleAddresses .external sampleWatch leakSeen : ℤ) ≤ 1 ↔
        @NoneBeforeReset sampleAddresses sampleWatch leakSeen .external) := by
  have h : (@EgressWatch.run sampleAddresses sampleWatch leakSeen).sinceMark
      (some sampleWatch.mark) = .observed ⟨1, 0, 1, 1⟩ := by decide
  exact ⟨h, (@evidence_in_full_iff sampleAddresses sampleWatch leakSeen _ h).1⟩

omit [IpAddress] in
/-- The window is reset after the sample: the run is told of no external connection. -/
theorem reset_hides_external_flow :
    (@EgressWatch.run sampleAddresses sampleWatch
        (leakSeen ++ [.reset 2, .observe 3 [], .commit])).sinceMark (some sampleWatch.mark) =
        .observed ⟨0, 0, 1, 1⟩ ∧
      @EgressWatch.newlyCounted sampleAddresses .external sampleWatch
        (leakSeen ++ [.reset 2, .observe 3 [], .commit]) = 1 := by
  decide

end FourCE.Egress

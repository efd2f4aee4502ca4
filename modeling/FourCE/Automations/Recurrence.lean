import FourCE.Library.Progression
import FourCE.Python.Str

/-!
# Recurrence rules

`_parse_rule` of `utils/automations.py`.  Times are microseconds from the beginning of the year 2000 on,
without an end of the calendar.  A rule text has one property on each line; what `dateutil` makes of it is
modelled by the properties, and that it enumerates the progression from the start that it has is assumed.
-/

namespace FourCE.Automations

open FourCE.Library FourCE.Python

inductive Freq
  | yearly
  | monthly
  | weekly
  | daily
  | hourly
  | minutely
  | secondly
  deriving DecidableEq, Repr

/-- A line of a rule text; a start is in seconds, and in a time zone or in none. -/
inductive Line
  | dtstart (seconds : ℤ) (tzid : Bool)
  | rrule (freq : Freq) (interval : ℤ) (count : Option ℕ)
  | exrule
  deriving DecidableEq, Repr

/-- A rule of `dateutil`. -/
structure RRule where
  freq : Freq
  interval : ℤ
  count : Option ℕ
  dtstart : ℤ
  tzinfo : Bool
  byminute : List ℤ
  bysecond : List ℤ
  deriving DecidableEq, Repr

def second : ℤ := 1000000

def minute : ℤ := 60 * second

def hour : ℤ := 60 * minute

/-- The unit of a frequency below a day. -/
def unitOf : Freq → Option ℤ
  | .secondly => some second
  | .minutely => some minute
  | .hourly => some hour
  | _ => none

/-- The constructor of `rrule`: a rule that is given no minute or second has those of its start, where its
frequency is coarser. -/
def newRule (freq : Freq) (interval : ℤ) (count : Option ℕ) (dtstart : ℤ) (tzinfo : Bool) : RRule where
  freq := freq
  interval := interval
  count := count
  dtstart := dtstart
  tzinfo := tzinfo
  byminute := if freq = .minutely ∨ freq = .secondly then [] else [dtstart / minute % 60]
  bysecond := if freq = .secondly then [] else [dtstart / second % 60]

def Line.isDtstart : Line → Bool
  | .dtstart _ _ => true
  | _ => false

/-- `rrulestr(s, dtstart, ignoretz=True)`: the rules, each from the last start in the text, from the one
that is given, or from this second. -/
def rrulestr (s : List Line) (dtstart : Option ℤ) (today : ℤ) : List RRule :=
  let start := s.foldl (fun found line ↦ match line with
    | .dtstart seconds tzid => (seconds * second, tzid)
    | _ => found) (dtstart.getD (today - today % second), false)
  s.filterMap fun line ↦ match line with
    | .rrule freq interval count => some (newRule freq interval count start.1 start.2)
    | _ => none

def onlyRule : List RRule → Except PyStr RRule
  | [rule] => .ok rule
  | [] => .error (py "list index out of range")
  | _ => .error (py "only one RRULE is supported per recurrence rule")

def epoch : ℤ := 0

/-- How many times a rule is taken to have come up since its start. -/
def emitted (rule : RRule) (anchor step : ℤ) : ℤ :=
  (if rule.dtstart < anchor then (anchor - rule.dtstart) / step else 0) *
    (max 1 rule.byminute.length * max 1 rule.bysecond.length : ℕ)

/-- `_parse_rule`. -/
def parseRule (s : List Line) (now today : ℤ) : Except PyStr RRule :=
  if s.any (· = .exrule) then .error (py "EXRULE is not supported in recurrence rules")
  else (onlyRule (rrulestr s none today)).bind fun rule ↦
    let kept := s.filter fun line ↦ !line.isDtstart
    let stripped := if kept.isEmpty then s else kept
    let has_dtstart := s.any Line.isDtstart
    match unitOf rule.freq with
    | none =>
      if !rule.tzinfo then .ok rule
      else onlyRule (rrulestr stripped (some rule.dtstart) today)
    | some unit =>
      let step := rule.interval * unit
      if rule.interval < 1 then .error (py "RRULE INTERVAL must be a positive integer")
      else if has_dtstart ∧ emitted rule now step ≤ 100000 then
        if rule.tzinfo then onlyRule (rrulestr stripped (some rule.dtstart) today) else .ok rule
      else onlyRule (rrulestr stripped (some (epoch + (now - epoch) / step * step)) today)

/-! ## Rules below a day -/

inductive SubDaily
  | hourly
  | minutely
  | secondly
  deriving DecidableEq, Repr

def SubDaily.freq : SubDaily → Freq
  | .hourly => .hourly
  | .minutely => .minutely
  | .secondly => .secondly

def SubDaily.unit : SubDaily → ℤ
  | .hourly => hour
  | .minutely => minute
  | .secondly => second

theorem SubDaily.unit_pos (f : SubDaily) : 0 < f.unit := by cases f <;> decide

@[simp]
theorem SubDaily.unitOf_freq (f : SubDaily) : unitOf f.freq = some f.unit := by cases f <;> rfl

/-- What `dateutil` enumerates for such a rule. -/
def RRule.progression (rule : RRule) : Option Progression :=
  (unitOf rule.freq).bind fun unit ↦
    if h : 0 < rule.interval * unit then some ⟨rule.dtstart, rule.interval * unit, rule.count, h⟩ else none

/-- A rule with an interval, an optional start and, where it has one, an optional count. -/
structure Recurrence where
  freq : SubDaily
  interval : ℤ
  dtstart : Option (ℤ × Bool)
  count : Option ℕ
  interval_pos : 1 ≤ interval
  counted : count.isSome = true → dtstart.isSome = true

namespace Recurrence

variable (r : Recurrence)

def lines : List Line :=
  (r.dtstart.map fun d ↦ Line.dtstart d.1 d.2).toList ++ [.rrule r.freq.freq r.interval r.count]

def step : ℤ := r.interval * r.freq.unit

theorem step_pos : 0 < r.step := mul_pos (by linarith [r.interval_pos]) r.freq.unit_pos

/-- The start that the rule has, or the one of all rules without. -/
def start : ℤ := (r.dtstart.map fun d ↦ d.1 * second).getD epoch

/-- The plan of a rule: from its start in steps, as often as it says. -/
def plan : Progression := ⟨r.start, r.step, r.count, r.step_pos⟩

/-- The steps that have passed since the start. -/
def passed (now : ℤ) : ℤ := if r.start < now then (now - r.start) / r.step else 0

/-- Where the rule that is parsed follows the plan: without a start, from one step before the year 2000 on;
with one, while no more than 100000 steps have passed, and after that where at most one occurrence was
wanted, or where the start is whole steps away from the year 2000 and the occurrences are not used up. -/
def Follows (now : ℤ) : Prop :=
  match r.dtstart with
  | none => epoch - r.step ≤ now
  | some _ => r.passed now ≤ 100000 ∨ (∃ n, r.count = some n ∧ n ≤ 1) ∨
      r.step ∣ r.start - epoch ∧ ∀ n, r.count = some n → r.passed now + 1 < n

/-- The plan of a rule without a start, or with one that is long ago: from the last multiple of a step. -/
def grid (now : ℤ) : Progression := ⟨epoch + (now - epoch) / r.step * r.step, r.step, r.count, r.step_pos⟩

/-! ## What is parsed -/

variable {r} {s : List Line} {now today : ℤ}

theorem progression_newRule (start : ℤ) (tzinfo : Bool) :
    (newRule r.freq.freq r.interval r.count start tzinfo).progression = some ⟨start, r.step, r.count, r.step_pos⟩ := by
  have hstep : 0 < r.interval * r.freq.unit := r.step_pos
  unfold RRule.progression
  simp only [newRule, SubDaily.unitOf_freq, Option.bind_some]
  exact dif_pos hstep

/-- A rule without further parts comes up once in each step. -/
theorem emitted_newRule (start : ℤ) (tzinfo : Bool) :
    emitted (newRule r.freq.freq r.interval r.count start tzinfo) now r.step =
      if start < now then (now - start) / r.step else 0 := by
  have hparts : max 1 (newRule r.freq.freq r.interval r.count start tzinfo).byminute.length *
      max 1 (newRule r.freq.freq r.interval r.count start tzinfo).bysecond.length = 1 := by
    cases r.freq <;> rfl
  unfold emitted
  rw [hparts, Nat.cast_one, mul_one]
  rfl

theorem rrulestr_rule (start : ℤ) :
    rrulestr [.rrule r.freq.freq r.interval r.count] (some start) today =
      [newRule r.freq.freq r.interval r.count start false] := rfl

/-- Without a start every rule goes on the grid. -/
theorem parseRule_bare (hstart : r.dtstart = none) : ∃ rule, parseRule r.lines now today = .ok rule ∧
    rule.progression = some (r.grid now) := by
  have hlines : r.lines = [.rrule r.freq.freq r.interval r.count] := by
    unfold lines
    rw [hstart]
    rfl
  refine ⟨newRule r.freq.freq r.interval r.count (r.grid now).start false, ?_, progression_newRule _ _⟩
  have hpos : ¬ r.interval < 1 := not_lt.mpr r.interval_pos
  rw [hlines]
  simp [parseRule, rrulestr, onlyRule, Except.bind, newRule, Line.isDtstart, hpos, grid, step]

/-- With a start a rule keeps it for 100000 steps, and goes on the grid afterwards. -/
theorem parseRule_started (hstart : r.dtstart.isSome = true) (hs : s = r.lines ∨ s = r.lines.reverse) :
    ∃ rule, parseRule s now today = .ok rule ∧
      rule.progression = some (if r.passed now ≤ 100000 then r.plan else r.grid now) := by
  obtain ⟨⟨seconds, tzid⟩, hstart⟩ := Option.isSome_iff_exists.mp hstart
  have hlines : r.lines = [.dtstart seconds tzid, .rrule r.freq.freq r.interval r.count] := by
    unfold lines
    rw [hstart]
    rfl
  have hseconds : r.start = seconds * second := by
    unfold start
    rw [hstart]
    rfl
  -- In either order the text has one rule, with the start, and without the start line the rule alone.
  have hrules : rrulestr s none today = [newRule r.freq.freq r.interval r.count r.start tzid] := by
    rw [hseconds]
    rcases hs with rfl | rfl <;> rw [hlines] <;> rfl
  have hkept : s.filter (fun line ↦ !line.isDtstart) = [.rrule r.freq.freq r.interval r.count] := by
    rcases hs with rfl | rfl <;> rw [hlines] <;> rfl
  have hplain : s.any (· = .exrule) = false := by
    rcases hs with rfl | rfl <;> rw [hlines] <;> rfl
  have hany : s.any Line.isDtstart = true := by
    rcases hs with rfl | rfl <;> rw [hlines] <;> rfl
  have hpos : ¬ r.interval < 1 := not_lt.mpr r.interval_pos
  have hpassed := @emitted_newRule r now r.start tzid
  have hparse : parseRule s now today =
      .ok (newRule r.freq.freq r.interval r.count (if r.passed now ≤ 100000 then r.start else (r.grid now).start)
        false) := by
    have hfreq : unitOf (newRule r.freq.freq r.interval r.count r.start tzid).freq = some r.freq.unit :=
      r.freq.unitOf_freq
    have hneg : ¬ (newRule r.freq.freq r.interval r.count r.start tzid).interval < 1 := hpos
    have hstep : (newRule r.freq.freq r.interval r.count r.start tzid).interval * r.freq.unit = r.step := rfl
    unfold parseRule
    rw [hplain, hrules, if_neg Bool.false_ne_true, hkept, hany]
    simp only [onlyRule, Except.bind, hfreq, if_neg hneg, hstep, hpassed, true_and, List.isEmpty_cons,
      Bool.false_eq_true, if_false, rrulestr_rule]
    unfold passed
    by_cases hfew : (if r.start < now then (now - r.start) / r.step else 0) ≤ 100000
    · rw [if_pos hfew, if_pos hfew]
      cases tzid <;> rfl
    · rw [if_neg hfew, if_neg hfew]
      rfl
  refine ⟨_, hparse, (progression_newRule _ _).trans ?_⟩
  split_ifs <;> rfl

/-! ## The first occurrence -/

theorem grid_after : (r.grid now).after now =
    if (r.grid now).reaches 1 then some (now - (now - epoch) % r.step + r.step) else none := by
  have hpos := r.step_pos
  have hdivision := Int.emod_add_mul_ediv (now - epoch) r.step
  have hnonneg := Int.emod_nonneg (now - epoch) hpos.ne'
  have hlt := Int.emod_lt_of_pos (now - epoch) hpos
  have hrest : now - (r.grid now).start = (now - epoch) % r.step := by
    show now - (epoch + (now - epoch) / r.step * r.step) = _
    linarith
  have hstep : (r.grid now).step = r.step := rfl
  have hle : (r.grid now).start ≤ now := by linarith
  rw [Progression.after_of_le hle, hrest, hstep, Int.ediv_eq_zero_of_lt hnonneg hlt, Int.emod_eq_of_lt hnonneg hlt]
  rfl

/-- A rule without a start follows its plan from one step before the year 2000 on. -/
theorem grid_follows_bare (hstart : r.dtstart = none) :
    (r.grid now).after now = r.plan.after now ↔ epoch - r.step ≤ now := by
  have hcount : r.count = none := by
    rw [← Option.not_isSome_iff_eq_none]
    intro hsome
    have hcounted := r.counted hsome
    rw [hstart] at hcounted
    cases hcounted
  have hplan : r.plan.start = epoch := by
    show r.start = epoch
    unfold start
    rw [hstart]
    rfl
  have hendless : ∀ q : Progression, q.count = none → ∀ i, q.reaches i = true := by
    intro q hq i
    unfold Progression.reaches
    rw [hq]
    rfl
  have hpos := r.step_pos
  have hnonneg := Int.emod_nonneg (now - epoch) hpos.ne'
  have hlt := Int.emod_lt_of_pos (now - epoch) hpos
  rw [grid_after, if_pos (hendless (r.grid now) hcount 1)]
  rcases lt_or_ge now epoch with hbefore | hlate
  · rw [Progression.after_of_lt (hplan ▸ hbefore), if_pos (hendless r.plan hcount 0), hplan, Option.some.injEq]
    constructor
    · intro h
      linarith
    · intro h
      have hmod : (now - epoch) % r.step = now - epoch + r.step := by
        rw [← Int.add_emod_right, Int.emod_eq_of_lt (by linarith) (by linarith)]
      linarith
  · rw [Progression.after_of_le (hplan ▸ hlate), if_pos (hendless r.plan hcount _), hplan]
    exact iff_of_true rfl (by linarith)

/-- On the grid a rule with a start follows its plan where one occurrence was wanted at most, or where it
starts on the grid and is not used up. -/
theorem grid_follows_started (hlong : 100000 < r.passed now) :
    (r.grid now).after now = r.plan.after now ↔ (∃ n, r.count = some n ∧ n ≤ 1) ∨
      r.step ∣ r.start - epoch ∧ ∀ n, r.count = some n → r.passed now + 1 < n := by
  have hstarted : r.start < now := by
    by_contra hnot
    rw [passed, if_neg hnot] at hlong
    omega
  have hpassed : r.passed now = (now - r.start) / r.step := if_pos hstarted
  have hphase : now - (now - epoch) % r.step + r.step = now - (now - r.start) % r.step + r.step ↔
      r.step ∣ r.start - epoch := by
    rw [Progression.same_phase_iff, ← Int.dvd_neg, neg_sub]
  have hplan : r.plan.after now = if r.plan.reaches ((r.passed now).toNat + 1) then
      some (now - (now - r.start) % r.step + r.step) else none := by
    rw [hpassed]
    exact Progression.after_of_le hstarted.le
  rw [grid_after, hplan]
  unfold Progression.reaches
  rw [show (r.grid now).count = r.count from rfl, show r.plan.count = r.count from rfl]
  cases hcount : r.count with
  | none =>
    simp only [Option.all_none, if_true, Option.some.injEq, hphase]
    simp
  | some n =>
    simp only [Option.all_some, decide_eq_true_eq, Option.some.injEq, forall_eq', exists_eq_left']
    split_ifs with hone hmore
    · rw [Option.some.injEq, hphase]
      have hleft : r.passed now + 1 < n := by omega
      exact ⟨fun h ↦ Or.inr ⟨h, hleft⟩, fun h ↦ (h.resolve_left (by omega)).1⟩
    · refine iff_of_false nofun ?_
      omega
    · omega
    · exact iff_of_true rfl (Or.inl (by omega))

end Recurrence

/-- The first occurrence of the parsed rule after a time is the first of its plan exactly where the rule
follows it. -/
theorem first_after_iff (r : Recurrence) {s : List Line} (hs : s = r.lines ∨ s = r.lines.reverse) (now today : ℤ) :
    ∃ rule p, parseRule s now today = .ok rule ∧ rule.progression = some p ∧
      (r.plan.IsFirstAfter now (p.after now) ↔ r.Follows now) := by
  cases hstart : r.dtstart with
  | none =>
    have hlines : s = r.lines := by
      rcases hs with rfl | rfl
      · rfl
      · unfold Recurrence.lines
        rw [hstart]
        rfl
    obtain ⟨rule, hrule, hp⟩ := @Recurrence.parseRule_bare _ now today hstart
    refine ⟨rule, _, hlines ▸ hrule, hp, ?_⟩
    rw [Progression.isFirstAfter_iff, Recurrence.grid_follows_bare hstart, Recurrence.Follows, hstart]
  | some d =>
    obtain ⟨rule, hrule, hp⟩ := @Recurrence.parseRule_started _ _ now today
      (by rw [hstart]; rfl) hs
    refine ⟨rule, _, hrule, hp, ?_⟩
    rw [Progression.isFirstAfter_iff, Recurrence.Follows, hstart]
    split_ifs with hfew
    · exact iff_of_true rfl (Or.inl hfew)
    · rw [Recurrence.grid_follows_started (not_le.mp hfew)]
      exact ⟨Or.inr, fun h ↦ h.resolve_left hfew⟩

/-- Every seven hours from one o'clock on, the start behind the rule. -/
def sevenHours : Recurrence := ⟨.hourly, 7, some (3600, true), none, by decide, nofun⟩

theorem first_after_iff_sevenHours :
    ∃ rule p, parseRule [.rrule .hourly 7 none, .dtstart 3600 true] (500 * hour) 0 = .ok rule ∧
      rule.progression = some p ∧
      (sevenHours.plan.IsFirstAfter (500 * hour) (p.after (500 * hour)) ↔ sevenHours.Follows (500 * hour)) :=
  first_after_iff sevenHours (Or.inr rfl) (500 * hour) 0

/-- Three times, minute by minute, from the beginning of the year 2000 on. -/
def threeMinutes : Recurrence := ⟨.minutely, 1, some (0, false), some 3, le_rfl, fun _ ↦ rfl⟩

/-- After 100001 minutes the rule of three occurrences comes up again. -/
theorem threeMinutes_restarts :
    ∃ rule p, parseRule threeMinutes.lines (100001 * minute) 0 = .ok rule ∧ rule.progression = some p ∧
      threeMinutes.plan.after (100001 * minute) = none ∧ p.after (100001 * minute) = some (100002 * minute) := by
  obtain ⟨rule, hrule, hp⟩ := @Recurrence.parseRule_started threeMinutes _ (100001 * minute) 0 rfl (Or.inl rfl)
  exact ⟨rule, _, hrule, hp, by decide, by decide⟩

end FourCE.Automations

import FourCE.Orchestrator.Fences
import FourCE.Python.JsonRoundTrip

/-!
# Numbers in brackets

What `_BRACKETED` matches, and what becomes of a stretch of text when the citations in it are cleaned: the
numbers in range stay where they are, and to clean it again changes nothing.
-/

namespace FourCE.Orchestrator

open FourCE.Library.Regex FourCE.Python

/-- `\s*,\s*\d+`. -/
def nextNumber : Pattern := .seq blanks (.seq (.char (one 44)) (.seq blanks (.seq someDigits .eps)))

/-- `\d+(?:\s*,\s*\d+)*`. -/
def numbersPattern : Pattern := .seq someDigits (.seq (.rep true 0 none nextNumber) .eps)

theorem bracketed_eq :
    bracketed = .seq (.group 1 (.seq blanks .eps)) (.seq (.char (one 91))
      (.seq (.group 2 numbersPattern) (.seq (.char (one 93)) .eps))) := by
  rw [bracketed, re]
  decide

theorem commaRun_eq : commaRun = .seq blanks (.seq (.char (one 44)) (.seq blanks .eps)) := by
  rw [commaRun, re]
  decide

theorem plain_bracketed [Unicode] : Plain bracketed := by
  rw [bracketed_eq]
  exact ⟨rfl, rfl⟩

theorem plain_commaRun [Unicode] : Plain commaRun := by
  rw [commaRun_eq]
  exact ⟨rfl, rfl⟩

section

variable [Unicode]

/-- Numbers with commas between them. -/
inductive Numbers : PyStr → Prop
  | one {d : PyStr} (hd : IsDigits d) : Numbers d
  | more {g a b d : PyStr} (hg : Numbers g) (ha : White a) (hb : White b) (hd : IsDigits d) :
      Numbers (g ++ (a ++ 44 :: (b ++ d)))

theorem mem_run_nextNumber {s t : State CodePoint} :
    t ∈ run sre nextNumber s ↔ ∃ a b d rest, s.after = (a ++ 44 :: (b ++ d)) ++ rest ∧ White a ∧ White b ∧
      IsDigits d ∧ t = s.past (a ++ 44 :: (b ++ d)) rest := by
  rw [nextNumber, mem_run_seq]
  constructor
  · rintro ⟨u, hu, ht⟩
    obtain ⟨a, rest, hafter, ha, rfl⟩ := mem_run_blanks.mp hu
    obtain ⟨rest', hrest, ht⟩ := mem_run_one.mp ht
    obtain ⟨v, hv, ht⟩ := mem_run_seq.mp ht
    obtain ⟨b, rest'', hb', hb, rfl⟩ := mem_run_blanks.mp hv
    obtain ⟨z, hz, ht⟩ := mem_run_seq.mp ht
    obtain ⟨d, more, hd', hd, rfl⟩ := mem_run_someDigits.mp hz
    rw [mem_run_eps.mp ht]
    simp only [State.past_after] at hrest hb' hd'
    refine ⟨a, b, d, more, ?_, ha, hb, hd, ?_⟩
    · rw [hafter, hrest, hb', hd']
      simp
    · simp [State.past_past]
  · rintro ⟨a, b, d, rest, hafter, ha, hb, hd, rfl⟩
    have hafter' : s.after = a ++ 44 :: (b ++ (d ++ rest)) := by simpa using hafter
    refine ⟨_, mem_run_blanks.mpr ⟨a, _, hafter', ha, rfl⟩, mem_run_one.mpr ⟨_, rfl, mem_run_seq.mpr ⟨_,
      mem_run_blanks.mpr ⟨b, _, rfl, hb, rfl⟩, mem_run_seq.mpr ⟨_, mem_run_someDigits.mpr
        ⟨d, rest, rfl, hd, rfl⟩, mem_run_eps.mpr ?_⟩⟩⟩⟩
    simp [State.past_past]

/-- The pattern of a group reads numbers with commas between them. -/
theorem mem_run_numbers {s t : State CodePoint} :
    t ∈ run sre numbersPattern s ↔ ∃ g rest, s.after = g ++ rest ∧ Numbers g ∧ t = s.past g rest := by
  have hconsumes : consumes nextNumber = true := rfl
  rw [numbersPattern, mem_run_seq]
  constructor
  · rintro ⟨u, hu, ht⟩
    obtain ⟨v, hv, hlast⟩ := mem_run_seq.mp ht
    obtain ⟨d, rest, hafter, hd, rfl⟩ := mem_run_someDigits.mp hu
    have hsteps := (mem_run_rep_iff hconsumes).mp hv
    rw [mem_run_eps.mp hlast]
    clear hv ht hu hlast
    induction hsteps with
    | refl => exact ⟨d, rest, hafter, .one hd, rfl⟩
    | tail _ hstep ih =>
      obtain ⟨g, more, hg', hg, rfl⟩ := ih
      obtain ⟨a, b, e, rest', hmore, ha, hb, he, rfl⟩ := mem_run_nextNumber.mp hstep
      rw [State.past_after] at hmore
      refine ⟨g ++ (a ++ 44 :: (b ++ e)), rest', ?_, .more hg ha hb he, State.past_past _ _ _ _ _⟩
      rw [hg', hmore, ← List.append_assoc]
  · rintro ⟨g, rest, hafter, hg, rfl⟩
    induction hg generalizing rest with
    | one hd =>
      refine ⟨_, mem_run_someDigits.mpr ⟨_, rest, hafter, hd, rfl⟩, mem_run_seq.mpr ⟨_,
        (mem_run_rep_iff hconsumes).mpr .refl, mem_run_eps.mpr rfl⟩⟩
    | @more g a b d _ ha hb hd ih =>
      obtain ⟨u, hu, hv⟩ := ih (a ++ 44 :: (b ++ d) ++ rest) (by rw [hafter, List.append_assoc])
      obtain ⟨v, hv, hlast⟩ := mem_run_seq.mp hv
      obtain rfl := mem_run_eps.mp hlast
      refine ⟨u, hu, mem_run_seq.mpr ⟨_, (mem_run_rep_iff hconsumes).mpr
        (((mem_run_rep_iff hconsumes).mp hv).tail (mem_run_nextNumber.mpr
          ⟨a, b, d, rest, rfl, ha, hb, hd, rfl⟩)), mem_run_eps.mpr (State.past_past _ _ _ _ _).symm⟩⟩

end

end FourCE.Orchestrator

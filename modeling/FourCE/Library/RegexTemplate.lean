import FourCE.Library.RegexRuns
import Mathlib.Data.List.Forall2
import Mathlib.Order.Basic

/-!
# Stretches one after the other

An expression that reads a stretch of one class, then a stretch of another, and so on, some of them
captured.  Where a stretch cannot go on with what the next one begins with, a text is cut in one way only.
-/

namespace FourCE.Library.Regex

variable {C A α : Type} {M : Meaning C A α}

/-- Characters of one class: a single one, or as many as the counts allow; and the group that
captures them. -/
structure Stretch (C : Type) where
  cls : C
  counts : Option (ℕ × Option ℕ)
  group : Option ℕ

namespace Stretch

def core (p : Stretch C) : Re C A :=
  match p.counts with
  | none => .char p.cls
  | some (least, most) => .rep true least most (.char p.cls)

def pattern (p : Stretch C) : Re C A :=
  match p.group with
  | none => p.core
  | some n => .group n (.seq p.core .eps)

def least (p : Stretch C) : ℕ := (p.counts.map Prod.fst).getD 1

def most (p : Stretch C) : Option ℕ := (p.counts.map Prod.snd).getD (some 1)

variable (M) in
/-- The stretch can be these characters. -/
structure Reads (p : Stretch C) (u : List α) : Prop where
  all : ∀ x ∈ u, M.accepts p.cls x = true
  least : p.least ≤ u.length
  most : ∀ k, p.most = some k → u.length ≤ k

def captures (p : Stretch C) (u : List α) : List (ℕ × List α) := (p.group.map fun n ↦ (n, u)).toList

theorem mem_run_core {p : Stretch C} {s t : State α} :
    t ∈ run M (p.core : Re C A) s ↔ ∃ u rest, s.after = u ++ rest ∧ p.Reads M u ∧ t = s.past u rest := by
  obtain ⟨c, counts, group⟩ := p
  rcases counts with _ | ⟨least, most⟩
  · rw [core, mem_run_char]
    constructor
    · rintro ⟨x, rest, hafter, hx, ht⟩
      exact ⟨[x], rest, hafter,
        ⟨List.forall_mem_singleton.mpr hx, Nat.le_refl 1, fun k hk ↦ by cases hk; exact Nat.le_refl 1⟩, ht⟩
    · rintro ⟨u, rest, hafter, hu, ht⟩
      obtain ⟨x, rfl⟩ := List.length_eq_one_iff.mp (Nat.le_antisymm (hu.most 1 rfl) hu.least)
      exact ⟨x, rest, hafter, hu.all x List.mem_cons_self, ht⟩
  · rw [core, mem_run_rep_char]
    constructor
    · rintro ⟨u, rest, hafter, hu, hleast, hmost, ht⟩
      exact ⟨u, rest, hafter, ⟨hu, hleast, hmost⟩, ht⟩
    · rintro ⟨u, rest, hafter, hu, ht⟩
      exact ⟨u, rest, hafter, hu.all, hu.least, hu.most, ht⟩

theorem mem_run_pattern {p : Stretch C} {s t : State α} :
    t ∈ run M (p.pattern : Re C A) s ↔
      ∃ u rest, s.after = u ++ rest ∧ p.Reads M u ∧ t = ⟨u.reverse ++ s.before, rest, p.captures u ++ s.groups⟩ := by
  unfold pattern captures
  cases p.group with
  | none => exact mem_run_core
  | some n =>
    simp only [Option.map_some, Option.toList_some, List.singleton_append]
    rw [mem_run_group]
    constructor
    · rintro ⟨v, hv, rfl⟩
      obtain ⟨w, hw, hvw⟩ := mem_run_seq.mp hv
      obtain rfl := mem_run_eps.mp hvw
      obtain ⟨u, rest, hafter, hu, rfl⟩ := mem_run_core.mp hw
      refine ⟨u, rest, hafter, hu, ?_⟩
      rw [upTo_past s hafter]
      rfl
    · rintro ⟨u, rest, hafter, hu, rfl⟩
      refine ⟨s.past u rest, mem_run_seq.mpr ⟨_, mem_run_core.mpr ⟨u, rest, hafter, hu, rfl⟩,
        mem_run_eps.mpr rfl⟩, ?_⟩
      rw [upTo_past s hafter]
      rfl

end Stretch

/-- The stretches one after the other, and then `q`. -/
def template (ps : List (Stretch C)) (q : Re C A) : Re C A := ps.foldr (fun p r ↦ .seq p.pattern r) q

/-- What the groups of the stretches capture, the latest first. -/
def captured : List (Stretch C) → List (List α) → List (ℕ × List α)
  | p :: ps, u :: us => captured ps us ++ p.captures u
  | _, _ => []

theorem mem_run_template {ps : List (Stretch C)} {q : Re C A} {s t : State α} :
    t ∈ run M (template ps q) s ↔
      ∃ us rest, List.Forall₂ (Stretch.Reads M) ps us ∧ s.after = us.flatten ++ rest ∧
        t ∈ run M q ⟨us.flatten.reverse ++ s.before, rest, captured ps us ++ s.groups⟩ := by
  induction ps generalizing s with
  | nil =>
    constructor
    · exact fun ht ↦ ⟨[], s.after, .nil, rfl, ht⟩
    · rintro ⟨us, rest, hus, hafter, ht⟩
      cases hus
      obtain rfl : s.after = rest := hafter
      exact ht
  | cons p ps ih =>
    rw [template, List.foldr_cons, ← template, mem_run_seq]
    constructor
    · rintro ⟨v, hv, ht⟩
      obtain ⟨u, rest, hafter, hu, rfl⟩ := Stretch.mem_run_pattern.mp hv
      obtain ⟨us, more, hus, hmore, ht⟩ := ih.mp ht
      obtain rfl : rest = us.flatten ++ more := hmore
      refine ⟨u :: us, more, .cons hu hus, by rw [hafter, List.flatten_cons, List.append_assoc], ?_⟩
      simpa only [List.flatten_cons, List.reverse_append, captured, List.append_assoc] using ht
    · rintro ⟨_, more, hall, hafter, ht⟩
      obtain ⟨u, us, hu, hus, rfl⟩ := List.forall₂_cons_left_iff.mp hall
      refine ⟨_, Stretch.mem_run_pattern.mpr ⟨u, us.flatten ++ more, ?_, hu, rfl⟩,
        ih.mpr ⟨us, more, hus, rfl, ?_⟩⟩
      · rw [hafter, List.flatten_cons, List.append_assoc]
      · simpa only [List.flatten_cons, List.reverse_append, captured, List.append_assoc] using ht

/-! ## One way to cut -/

/-- A text of this class followed by nothing of it is what it is. -/
theorem append_inj_of_class {c : α → Bool} {u u' rest rest' : List α} (h : u ++ rest = u' ++ rest')
    (hu : ∀ x ∈ u, c x = true) (hu' : ∀ x ∈ u', c x = true) (hrest : ∀ x ∈ rest.head?, c x = false)
    (hrest' : ∀ x ∈ rest'.head?, c x = false) : u = u' ∧ rest = rest' := by
  have htake : ∀ {v more : List α}, (∀ x ∈ v, c x = true) → (∀ x ∈ more.head?, c x = false) →
      (v ++ more).takeWhile c = v := by
    intro v more hv hmore
    rw [List.takeWhile_append_of_pos hv]
    cases more with
    | nil => simp
    | cons y more => simp [hmore y rfl]
  have hsame : u = u' := by
    rw [← htake hu hrest, h, htake hu' hrest']
  subst hsame
  exact ⟨rfl, List.append_cancel_left h⟩

/-- The classes a text of the stretches may begin with. -/
def heads : List (Stretch C) → List C
  | [] => []
  | p :: ps => p.cls :: if p.least = 0 then heads ps else []

theorem head_of_reads {ps : List (Stretch C)} {us : List (List α)} (h : List.Forall₂ (Stretch.Reads M) ps us)
    {x : α} (hx : x ∈ us.flatten.head?) : ∃ c ∈ heads ps, M.accepts c x = true := by
  induction h with
  | nil => cases hx
  | @cons p u ps us hu hus ih =>
    cases u with
    | nil =>
      obtain ⟨c, hc, haccepts⟩ := ih hx
      refine ⟨c, ?_, haccepts⟩
      rw [heads, if_pos (Nat.le_zero.mp hu.least)]
      exact List.mem_cons_of_mem _ hc
    | cons y u =>
      obtain rfl : y = x := Option.some.inj hx
      exact ⟨p.cls, by simp [heads], hu.all y List.mem_cons_self⟩

/-- No stretch can go on with what may come behind it. -/
def Separate (disjoint : C → C → Bool) : List (Stretch C) → Bool
  | [] => true
  | p :: ps => (heads ps).all (disjoint p.cls) && Separate disjoint ps

/-- Among stretches that cannot run into each other a text is cut in one way. -/
theorem cut_unique {disjoint : C → C → Bool} {ok : α → Prop}
    (hdisjoint : ∀ c d x, ok x → disjoint c d = true → M.accepts d x = true → M.accepts c x = false)
    {ps : List (Stretch C)} (hps : Separate disjoint ps = true) {us vs : List (List α)}
    (hus : List.Forall₂ (Stretch.Reads M) ps us) (hvs : List.Forall₂ (Stretch.Reads M) ps vs)
    (h : us.flatten = vs.flatten) (hok : ∀ x ∈ us.flatten, ok x) : us = vs := by
  induction hus generalizing vs with
  | nil =>
    cases hvs
    rfl
  | @cons p u ps us hu hus ih =>
    obtain ⟨v, ws, hv, hws, rfl⟩ := List.forall₂_cons_left_iff.mp hvs
    rw [Separate, Bool.and_eq_true, List.all_eq_true] at hps
    rw [List.flatten_cons] at h hok
    rw [List.flatten_cons] at h
    have hbehind : ∀ {xs : List (List α)}, List.Forall₂ (Stretch.Reads M) ps xs →
        (∀ x ∈ xs.flatten, ok x) → ∀ x ∈ xs.flatten.head?, M.accepts p.cls x = false := by
      intro xs hxs hall x hx
      obtain ⟨c, hc, haccepts⟩ := head_of_reads hxs hx
      exact hdisjoint p.cls c x (hall x (List.mem_of_head? hx)) (hps.1 c hc) haccepts
    obtain ⟨rfl, hrest⟩ := append_inj_of_class h hu.all hv.all
      (hbehind hus fun x hx ↦ hok x (List.mem_append_right u hx))
      (hbehind hws fun x hx ↦ hok x (h ▸ List.mem_append_right v hx))
    rw [ih hps.2 hws hrest fun x hx ↦ hok x (List.mem_append_right u hx)]

end FourCE.Library.Regex

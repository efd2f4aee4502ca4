import Mathlib.Data.Finset.Card
import Mathlib.Data.Finset.Dedup
import Mathlib.Data.List.Perm.Subperm
import Mathlib.Logic.Relation
import Mathlib.Tactic.Common

/-!
# Relations without cycles

Parent relations that are edited: an element is put on top of its parent, the way over some elements
is shortened, one relation is laid over another.  Each keeps the relation free of cycles.
-/

namespace FourCE.Library

open Relation

variable {α : Type} {r s : α → α → Prop}

def Acyclic (r : α → α → Prop) : Prop := ∀ a, ¬ TransGen r a a

theorem Acyclic.ne (h : Acyclic r) {a b : α} (hab : r a b) : a ≠ b := by
  rintro rfl
  exact h a (.single hab)

/-- Each new step is a way that was there. -/
theorem Acyclic.shorten (h : Acyclic r) (hs : ∀ a b, s a b → TransGen r a b) : Acyclic s :=
  fun a hcycle ↦ h a (TransGen.closed hs a a hcycle)

/-- A new element that nothing leads to. -/
theorem Acyclic.leaf (h : Acyclic r) {a p : α} (ha : ∀ b, ¬ r b a) (hp : p ≠ a) :
    Acyclic fun x y ↦ r x y ∨ x = a ∧ y = p := by
  have hend : ∀ x y, TransGen (fun x y ↦ r x y ∨ x = a ∧ y = p) x y → y ≠ a := by
    intro x y hxy
    induction hxy with
    | single hstep => exact fun he ↦ hstep.elim (fun hr ↦ ha x (he ▸ hr)) fun h' ↦ hp (h'.2 ▸ he)
    | tail _ hstep _ => exact fun he ↦ hstep.elim (fun hr ↦ ha _ (he ▸ hr)) fun h' ↦ hp (h'.2 ▸ he)
  have hway : ∀ x y, x ≠ a → TransGen (fun x y ↦ r x y ∨ x = a ∧ y = p) x y → TransGen r x y := by
    intro x y hx hxy
    induction hxy with
    | single hstep => exact .single (hstep.resolve_right fun h' ↦ hx h'.1)
    | tail hxb hstep ih => exact ih.tail (hstep.resolve_right fun h' ↦ hend _ _ hxb h'.1)
  intro x hcycle
  exact h x (hway x x (hend x x hcycle) hcycle)

/-- An element gets another parent, from which no way leads to it. -/
theorem Acyclic.redirect (h : Acyclic r) {a p : α} (hp : ¬ ReflTransGen r p a) :
    Acyclic fun x y ↦ x ≠ a ∧ r x y ∨ x = a ∧ y = p := by
  have hway : ∀ x y, TransGen (fun x y ↦ x ≠ a ∧ r x y ∨ x = a ∧ y = p) x y →
      TransGen r x y ∨ ReflTransGen r x a ∧ ReflTransGen r p y := by
    intro x y hxy
    induction hxy with
    | single hstep =>
      rcases hstep with ⟨_, hr⟩ | ⟨rfl, rfl⟩
      · exact Or.inl (.single hr)
      · exact Or.inr ⟨.refl, .refl⟩
    | tail _ hstep ih =>
      rcases hstep with ⟨_, hr⟩ | ⟨rfl, rfl⟩
      · exact ih.imp (·.tail hr) fun hboth ↦ ⟨hboth.1, hboth.2.tail hr⟩
      · exact ih.elim (fun hleft ↦ Or.inr ⟨hleft.to_reflTransGen, .refl⟩) fun hboth ↦ (hp hboth.2).elim
  intro x hcycle
  rcases hway x x hcycle with hleft | ⟨hxa, hpx⟩
  · exact h x hleft
  · exact hp (hpx.trans hxa)

/-- Where `P` holds the one relation, elsewhere the other: once in `P` a way stays there. -/
theorem Acyclic.overlay (h : Acyclic r) (hs : Acyclic s) {P : α → Prop}
    (hP : ∀ a b, P a → s a b → P b) : Acyclic fun a b ↦ P a ∧ s a b ∨ ¬ P a ∧ r a b := by
  have hin : ∀ a b, P a → TransGen (fun a b ↦ P a ∧ s a b ∨ ¬ P a ∧ r a b) a b →
      P b ∧ TransGen s a b := by
    intro a b ha hab
    induction hab with
    | single hstep =>
      have hsab := (hstep.resolve_right fun h' ↦ h'.1 ha).2
      exact ⟨hP _ _ ha hsab, .single hsab⟩
    | tail _ hstep ih =>
      have hsbc := (hstep.resolve_right fun h' ↦ h'.1 ih.1).2
      exact ⟨hP _ _ ih.1 hsbc, ih.2.tail hsbc⟩
  have hout : ∀ a b, ¬ P b → TransGen (fun a b ↦ P a ∧ s a b ∨ ¬ P a ∧ r a b) a b →
      TransGen r a b := by
    intro a b hb hab
    induction hab using TransGen.head_induction_on with
    | single hstep =>
      refine .single (hstep.resolve_left fun h' ↦ hb (hP _ _ h'.1 h'.2)).2
    | head hstep hcb ih =>
      refine .head (hstep.resolve_left fun h' ↦ hb ?_).2 ih
      exact (hin _ _ (hP _ _ h'.1 h'.2) hcb).1
  intro a hcycle
  by_cases ha : P a
  · exact hs a (hin a a ha hcycle).2
  · exact h a (hout a a ha hcycle)

/-- A list of different elements of another is shorter while one of them is not in it. -/
theorem length_lt_of_fresh {xs seen : List α} (hseen : seen.Nodup) (hsub : ∀ x ∈ seen, x ∈ xs) {a : α}
    (ha : a ∈ xs) (hfresh : a ∉ seen) : seen.length < xs.length := by
  have hcons : (a :: seen).Subperm xs := (List.nodup_cons.mpr ⟨hfresh, hseen⟩).subperm fun x hx ↦ by
    rcases List.mem_cons.mp hx with rfl | hx
    · exact ha
    · exact hsub x hx
  exact hcons.length_le

/-! ## Ways that end -/

/-- A cycle can be reached. -/
def Looping (r : α → α → Prop) (a : α) : Prop := ∃ b, ReflTransGen r a b ∧ TransGen r b b

theorem Looping.of_step {a b : α} (hab : r a b) (h : Looping r b) : Looping r a := by
  obtain ⟨c, hbc, hc⟩ := h
  exact ⟨c, .head hab hbc, hc⟩

/-- The way into a cycle goes on. -/
theorem Looping.exists_step {a : α} (h : Looping r a) : ∃ b, r a b ∧ Looping r b := by
  obtain ⟨c, hac, hc⟩ := h
  rcases ReflTransGen.cases_head hac with rfl | ⟨b, hab, hbc⟩
  · obtain ⟨b, hab, hba⟩ := TransGen.head'_iff.mp hc
    exact ⟨b, hab, a, hba, hc⟩
  · exact ⟨b, hab, c, hbc, hc⟩

open Classical in
/-- How many elements can be reached. -/
noncomputable def height [DecidableEq α] (r : α → α → Prop) (xs : List α) (a : α) : ℕ :=
  (xs.toFinset.filter fun b ↦ TransGen r a b).card

theorem height_le [DecidableEq α] (r : α → α → Prop) (xs : List α) (a : α) : height r xs a ≤ xs.length := by
  classical
  exact (Finset.card_filter_le _ _).trans (List.toFinset_card_le xs)

/-- Where no cycle can be reached every step is one down. -/
theorem height_lt [DecidableEq α] {xs : List α} (hxs : ∀ a b, r a b → b ∈ xs) {a b : α}
    (ha : ¬ Looping r a) (hab : r a b) : height r xs b < height r xs a := by
  classical
  apply Finset.card_lt_card
  rw [Finset.ssubset_iff_of_subset]
  · refine ⟨b, Finset.mem_filter.mpr ⟨List.mem_toFinset.mpr (hxs a b hab), .single hab⟩, fun hb ↦ ?_⟩
    exact ha ⟨b, .single hab, (Finset.mem_filter.mp hb).2⟩
  · intro c hc
    obtain ⟨hmem, hbc⟩ := Finset.mem_filter.mp hc
    exact Finset.mem_filter.mpr ⟨hmem, .head hab hbc⟩

end FourCE.Library

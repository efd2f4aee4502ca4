import FourCE.Library.RegexRuns

/-!
# What stands around a group

When every class outside one group of an expression is of some kind, a match reads only characters of
that kind in front of what the group captured, and behind it.
-/

namespace FourCE.Library.Regex

variable {C A α : Type} {M : Meaning C A α}

/-- Every class of the expression is of the kind, and no group has number `n`. -/
def only (p : C → Bool) (n : ℕ) : Re C A → Bool
  | .eps | .test _ => true
  | .char c => p c
  | .seq r q | .alt r q => only p n r && only p n q
  | .rep _ _ _ r => only p n r
  | .group m r => m ≠ n && only p n r

/-- The expression is group `n`. -/
def captures (n : ℕ) : Re C A → Bool
  | .group m _ => m = n
  | _ => false

/-- Group `n` stands in a sequence, and what is around it is of the kind. -/
def around (p : C → Bool) (n : ℕ) : Re C A → Bool
  | .seq r q => captures n r && only p n q || only p n r && around p n q
  | _ => false

/-- From one state to the other only characters with `P` were read, and group `n` was left alone. -/
def Reads (P : α → Prop) (n : ℕ) (s t : State α) : Prop :=
  (∃ u, s.after = u ++ t.after ∧ ∀ x ∈ u, P x) ∧
    t.groups.find? (fun g ↦ g.1 = n) = s.groups.find? fun g ↦ g.1 = n

variable {P : α → Prop} {p : C → Bool} {n : ℕ}

theorem Reads.refl (s : State α) : Reads P n s s := ⟨⟨[], rfl, nofun⟩, rfl⟩

theorem Reads.trans {s t v : State α} (hst : Reads P n s t) (htv : Reads P n t v) : Reads P n s v := by
  obtain ⟨⟨u, hu, hp⟩, hs⟩ := hst
  obtain ⟨⟨w, hw, hq⟩, ht⟩ := htv
  refine ⟨⟨u ++ w, by rw [hu, hw, List.append_assoc], fun x hx ↦ ?_⟩, ht.trans hs⟩
  exact (List.mem_append.mp hx).elim (hp x) (hq x)

end FourCE.Library.Regex

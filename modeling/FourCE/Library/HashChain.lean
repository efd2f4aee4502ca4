import Mathlib.Data.List.Induction
import Mathlib.Data.Set.Function

/-!
# Linked records

A record carries a link to the record before it and a seal of its own; a list of records is a
chain from a start value when every link is the seal of the record before.  The seal of the last
record is the head.  Where seals tell the records in play apart and are never the start value, the
head determines the whole chain.
-/

namespace FourCE.Library.HashChain

variable {E H : Type*} (link digest : E → H)

/-- Every record links to the seal before it, the first one to `start`. -/
def Linked : H → List E → Prop
  | _, [] => True
  | start, e :: es => link e = start ∧ Linked (digest e) es

def head (start : H) (es : List E) : H := es.foldl (fun _ e ↦ digest e) start

@[simp]
theorem head_nil (start : H) : head digest start [] = start := rfl

@[simp]
theorem head_cons (start : H) (e : E) (es : List E) :
    head digest start (e :: es) = head digest (digest e) es := rfl

@[simp]
theorem head_append_singleton (start : H) (es : List E) (e : E) :
    head digest start (es ++ [e]) = digest e := by
  simp [head]

theorem linked_append (start : H) (es fs : List E) :
    Linked link digest start (es ++ fs) ↔
      Linked link digest start es ∧ Linked link digest (head digest start es) fs := by
  induction es generalizing start with
  | nil => simp [Linked]
  | cons e es ih =>
    simp only [List.cons_append, Linked, ih, and_assoc]
    rfl

theorem linked_append_singleton (start : H) (es : List E) (e : E) :
    Linked link digest start (es ++ [e]) ↔
      Linked link digest start es ∧ link e = head digest start es := by
  simp [linked_append, Linked]

/-- The head pins the chain: where one digest means one key and one link, one head means one
list of keys. -/
theorem map_eq_of_head_eq {K : Type*} (key : E → K) {start : H} {es fs : List E}
    (hinj : ∀ e ∈ es, ∀ f ∈ fs, digest e = digest f → key e = key f ∧ link e = link f)
    (hstart : ∀ e ∈ es ++ fs, digest e ≠ start)
    (hes : Linked link digest start es) (hfs : Linked link digest start fs)
    (hhead : head digest start es = head digest start fs) : es.map key = fs.map key := by
  induction es using List.reverseRecOn generalizing fs with
  | nil =>
    cases fs using List.reverseRecOn with
    | nil => rfl
    | append_singleton fs f =>
      rw [head_nil, head_append_singleton] at hhead
      exact absurd hhead.symm (hstart f (by simp))
  | append_singleton es e ih =>
    cases fs using List.reverseRecOn with
    | nil =>
      rw [head_nil, head_append_singleton] at hhead
      exact absurd hhead (hstart e (by simp))
    | append_singleton fs f =>
      rw [head_append_singleton, head_append_singleton] at hhead
      obtain ⟨hkey, hlink⟩ := hinj e (by simp) f (by simp) hhead
      rw [linked_append_singleton] at hes hfs
      have hbegin : es.map key = fs.map key := by
        refine ih ?_ ?_ hes.1 hfs.1 ?_
        · intro x hx y hy
          exact hinj x (List.mem_append_left _ hx) y (List.mem_append_left _ hy)
        · intro x hx
          refine hstart x ?_
          simp only [List.mem_append] at hx ⊢
          exact hx.imp Or.inl Or.inl
        · rw [← hes.2, ← hfs.2, hlink]
      rw [List.map_append, List.map_append, hbegin, List.map_singleton, List.map_singleton, hkey]

end FourCE.Library.HashChain

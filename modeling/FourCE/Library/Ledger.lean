import Mathlib.Data.List.Basic

/-!
# Programs with a ledger

A program with a state and exceptions, whose state keeps a ledger that only grows.  What a program
adds to its ledger, by how it ends, and the rules by which this is put together from its parts.
-/

namespace FourCE.Library.Ledger

section

variable {E S L A B : Type} (ledger : S → List L)

/-- What a program adds to its ledger, whatever the state it starts in: `Q` of how it ends and of the
entries. -/
def Adds (x : ExceptT E (StateM S) A) (Q : Except E A → List L → Prop) : Prop :=
  ∀ s, ∃ new, ledger (x.run.run s).2 = ledger s ++ new ∧ Q (x.run.run s).1 new

/-- A program adds no entries but those allowed; it ends with a value that is as it should be or with
an exception that may be. -/
def Only (P : L → Prop) (X : E → Prop) (V : A → Prop) (x : ExceptT E (StateM S) A) : Prop :=
  Adds ledger x fun r new ↦ (∀ e ∈ new, P e) ∧ match r with
    | .ok a => V a
    | .error e => X e

/-- A program goes through and adds these entries. -/
def Leaves (new : List L) (x : ExceptT E (StateM S) A) : Prop :=
  Adds ledger x fun r added ↦ (∃ a, r = .ok a) ∧ added = new

variable {ledger} {x : ExceptT E (StateM S) A} {f : A → ExceptT E (StateM S) B}

/-! ## What is added -/

theorem Adds.mono {Q R : Except E A → List L → Prop} (h : Adds ledger x Q) (hQR : ∀ r new, Q r new → R r new) :
    Adds ledger x R := by
  intro s
  obtain ⟨new, hnew, hQ⟩ := h s
  exact ⟨new, hnew, hQR _ _ hQ⟩

theorem adds_pure {Q : Except E A → List L → Prop} {a : A} (h : Q (.ok a) []) : Adds ledger (pure a) Q :=
  fun _ ↦ ⟨[], (List.append_nil _).symm, h⟩

theorem adds_throw {Q : Except E A → List L → Prop} {e : E} (h : Q (.error e) []) :
    Adds ledger (throw e : ExceptT E (StateM S) A) Q :=
  fun _ ↦ ⟨[], (List.append_nil _).symm, h⟩

/-- A change of the state that adds these entries. -/
theorem adds_modify {Q : Except E Unit → List L → Prop} {g : S → S} {new : List L}
    (hg : ∀ s, ledger (g s) = ledger s ++ new) (h : Q (.ok ()) new) :
    Adds ledger (modify g : ExceptT E (StateM S) Unit) Q :=
  fun s ↦ ⟨new, hg s, h⟩

theorem adds_get {Q : Except E S → List L → Prop} (h : ∀ s, Q (.ok s) []) :
    Adds ledger (get : ExceptT E (StateM S) S) Q :=
  fun s ↦ ⟨[], (List.append_nil _).symm, h s⟩

/-- What follows adds its entries behind those that are there. -/
theorem Adds.bind {Q : Except E A → List L → Prop} {R : Except E B → List L → Prop} (hx : Adds ledger x Q)
    (herror : ∀ e new, Q (.error e) new → R (.error e) new)
    (hok : ∀ a first, Q (.ok a) first → Adds ledger (f a) fun r rest ↦ R r (first ++ rest)) :
    Adds ledger (x >>= f) R := by
  intro s
  obtain ⟨first, hfirst, hQ⟩ := hx s
  rw [ExceptT.run_bind, StateT.run_bind]
  rcases hrun : x.run.run s with ⟨e | a, t⟩
  · rw [hrun] at hfirst hQ
    exact ⟨first, hfirst, herror e first hQ⟩
  · rw [hrun] at hfirst hQ
    obtain ⟨rest, hrest, hR⟩ := hok a first hQ t
    refine ⟨first ++ rest, ?_, hR⟩
    rw [← List.append_assoc, ← hfirst]
    exact hrest

/-! ## Programs that go through -/

theorem leaves_get : Leaves ledger [] (get : ExceptT E (StateM S) S) :=
  adds_get fun s ↦ ⟨⟨s, rfl⟩, rfl⟩

theorem leaves_modify {g : S → S} {new : List L} (hg : ∀ s, ledger (g s) = ledger s ++ new) :
    Leaves ledger new (modify g : ExceptT E (StateM S) Unit) :=
  adds_modify hg ⟨⟨(), rfl⟩, rfl⟩

theorem leaves_silently {g : S → S} (hg : ∀ s, ledger (g s) = ledger s) :
    Leaves ledger [] (modify g : ExceptT E (StateM S) Unit) :=
  leaves_modify fun s ↦ by rw [hg s, List.append_nil]

theorem Leaves.adds_bind {R : Except E B → List L → Prop} {new : List L} (hx : Leaves ledger new x)
    (hf : ∀ a, Adds ledger (f a) fun r rest ↦ R r (new ++ rest)) : Adds ledger (x >>= f) R := by
  refine Adds.bind hx (fun e first h ↦ ?_) fun a first h ↦ ?_
  · obtain ⟨⟨a, ha⟩, -⟩ := h
    cases ha
  · obtain rfl := h.2
    exact hf a

theorem Leaves.bind {first rest : List L} (hx : Leaves ledger first x) (hf : ∀ a, Leaves ledger rest (f a)) :
    Leaves ledger (first ++ rest) (x >>= f) :=
  hx.adds_bind fun a ↦ (hf a).mono fun r added h ↦ ⟨h.1, by rw [h.2]⟩

/-! ## Programs that add only what is allowed -/

variable {P : L → Prop} {X : E → Prop} {V : A → Prop} {W : B → Prop}

theorem only_pure {a : A} (h : V a) : Only ledger P X V (pure a) :=
  adds_pure ⟨by simp, h⟩

theorem only_throw {e : E} (h : X e) : Only ledger P X V (throw e) :=
  adds_throw ⟨by simp, h⟩

theorem only_get {V : S → Prop} (h : ∀ s, V s) : Only ledger P X V get :=
  adds_get fun s ↦ ⟨by simp, h s⟩

theorem only_modify {V : Unit → Prop} {g : S → S} (new : List L) (hg : ∀ s, ledger (g s) = ledger s ++ new)
    (hnew : ∀ e ∈ new, P e) (h : V ()) : Only ledger P X V (modify g) :=
  adds_modify hg ⟨hnew, h⟩

theorem Only.mono {P' : L → Prop} {X' : E → Prop} {V' : A → Prop} (h : Only ledger P X V x)
    (hP : ∀ e, P e → P' e) (hX : ∀ e, X e → X' e) (hV : ∀ a, V a → V' a) : Only ledger P' X' V' x := by
  refine Adds.mono h fun r new hr ↦ ⟨fun e he ↦ hP e (hr.1 e he), ?_⟩
  cases r with
  | ok a => exact hV a hr.2
  | error e => exact hX e hr.2

theorem Only.bind (hx : Only ledger P X V x) (hf : ∀ a, V a → Only ledger P X W (f a)) :
    Only ledger P X W (x >>= f) := by
  refine Adds.bind hx (fun e new h ↦ h) fun a first h ↦ Adds.mono (hf a h.2) fun r rest hr ↦ ⟨?_, hr.2⟩
  intro e he
  rcases List.mem_append.mp he with he | he
  · exact h.1 e he
  · exact hr.1 e he

/-- What follows whichever of two parts is run. -/
theorem only_ite_bind {p : Prop} [Decidable p] {y : ExceptT E (StateM S) A} (hx : p → Only ledger P X V x)
    (hy : ¬ p → Only ledger P X V y) (hf : ∀ a, V a → Only ledger P X W (f a)) :
    Only ledger P X W (if p then x >>= f else y >>= f) := by
  split_ifs with h
  · exact (hx h).bind hf
  · exact (hy h).bind hf

/-- What follows a part that may be left out. -/
theorem only_ite_skip {p : Prop} [Decidable p] {x : ExceptT E (StateM S) Unit}
    {f : Unit → ExceptT E (StateM S) B} (hx : p → Only ledger P X (fun _ ↦ True) x)
    (hf : Only ledger P X W (f ())) : Only ledger P X W (if p then x >>= f else f ()) := by
  split_ifs with h
  · exact (hx h).bind fun _ _ ↦ hf
  · exact hf

/-- What follows a part that adds only what is allowed. -/
theorem Only.adds_bind {R : Except E B → List L → Prop} (hx : Only ledger P X V x)
    (herror : ∀ e new, X e → R (.error e) new)
    (hok : ∀ a first, (∀ e ∈ first, P e) → V a → Adds ledger (f a) fun r rest ↦ R r (first ++ rest)) :
    Adds ledger (x >>= f) R :=
  Adds.bind hx (fun e new h ↦ herror e new h.2) fun a first h ↦ hok a first h.1 h.2

theorem only_mapM {f : A → ExceptT E (StateM S) B} (h : ∀ a, Only ledger P X W (f a)) (xs : List A) :
    Only ledger P X (fun ys ↦ ∀ y ∈ ys, W y) (xs.mapM f) := by
  induction xs with
  | nil => exact only_pure (by simp)
  | cons a xs ih =>
    rw [List.mapM_cons]
    refine (h a).bind fun b hb ↦ ih.bind fun bs hbs ↦ only_pure ?_
    intro y hy
    rcases List.mem_cons.mp hy with rfl | hy
    · exact hb
    · exact hbs y hy

theorem only_forIn {f : A → PUnit → ExceptT E (StateM S) (ForInStep PUnit)}
    (h : ∀ a u, Only ledger P X (fun _ ↦ True) (f a u)) (xs : List A) (u : PUnit) :
    Only ledger P X (fun _ ↦ True) (forIn xs u f) := by
  induction xs generalizing u with
  | nil => exact only_pure trivial
  | cons a xs ih =>
    rw [List.forIn_cons]
    refine (h a u).bind fun step _ ↦ ?_
    cases step with
    | done v => exact only_pure trivial
    | yield v => exact ih v

end

end FourCE.Library.Ledger

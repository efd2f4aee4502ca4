import FourCE.Audit.Lines
import FourCE.Python.Dict
import FourCE.Library.HashChain

/-!
# What `verify` checks

The loop of `verify` over the lines of a file and over the entries on them; an entry either passes
all four checks or ends the walk.
-/

namespace FourCE.Audit

open FourCE.Python FourCE.Library

section

variable {F : Type} [PyFloat F] (I : Interp F)

/-! ## One entry -/

/-- The four checks of `verify`, passed with this hash. -/
structure Passes (prev : PyStr) (expected : ℕ) (d : Entry F) (hash : PyStr) : Prop where
  seq : eqInt (seqOf d) expected = true
  prev : isStr (dictGet d keyPrev) prev = true
  isSealed : sealOf I d = .ok hash
  hash : isStr (dictGet d keyHash) hash = true

variable {I}

omit [PyFloat F] in
theorem eq_of_isStr {v : Option (Json F)} {s : PyStr} (h : isStr v s = true) :
    v = some (.str s) := by
  unfold isStr at h
  split at h
  · rw [of_decide_eq_true h]
  · exact absurd h (by simp)

theorem canonical_of_sealOf {d : Entry F} {hash : PyStr} (h : sealOf I d = .ok hash) :
    ∃ b, canonical (dictErase d keyHash) = .ok b ∧ hexdigest I b = hash := by
  rw [sealOf] at h
  cases hb : canonical (dictErase d keyHash) with
  | error e => exact absurd h (by simp [hb, Except.map])
  | ok b =>
    rw [hb] at h
    exact ⟨b, rfl, Except.ok.inj h⟩

theorem checkEntry_of_passes {prev : PyStr} {expected : ℕ} {d : Entry F} {hash : PyStr}
    (h : Passes I prev expected d hash) (entries : Json F) :
    checkEntry I d prev expected entries = .ok (.inr hash) := by
  rw [checkEntry, h.seq, h.prev, h.isSealed]
  simp [h.hash]

/-- What the checks can come to: all four passed, or the first to fail reported, or no hash. -/
theorem checkEntry_cases (d : Entry F) (prev : PyStr) (expected : ℕ) (entries : Json F) :
    (∃ hash, Passes I prev expected d hash) ∨
    (eqInt (seqOf d) expected = false ∧ ∃ reason, checkEntry I d prev expected entries =
      .ok (.inl ⟨false, entries, prev, some (.int expected), reason⟩)) ∨
    (eqInt (seqOf d) expected = true ∧
      (isStr (dictGet d keyPrev) prev = false ∨ ∃ hash, sealOf I d = .ok hash) ∧
      ∃ reason, checkEntry I d prev expected entries =
        .ok (.inl ⟨false, entries, prev, some (seqOf d), reason⟩)) ∨
    (eqInt (seqOf d) expected = true ∧ isStr (dictGet d keyPrev) prev = true ∧
      ∃ e, sealOf I d = .error e ∧ checkEntry I d prev expected entries = .error e) := by
  rw [checkEntry]
  cases hseq : eqInt (seqOf d) expected with
  | false => exact Or.inr (Or.inl ⟨rfl, _, rfl⟩)
  | true =>
    cases hprev : isStr (dictGet d keyPrev) prev with
    | false => exact Or.inr (Or.inr (Or.inl ⟨rfl, Or.inl rfl, _, rfl⟩))
    | true =>
      cases hseal : sealOf I d with
      | error e => exact Or.inr (Or.inr (Or.inr ⟨rfl, rfl, e, rfl, rfl⟩))
      | ok hash =>
        cases hhash : isStr (dictGet d keyHash) hash with
        | false =>
          refine Or.inr (Or.inr (Or.inl ⟨rfl, Or.inr ⟨hash, rfl⟩, .changed (seqOf d), ?_⟩))
          simp [hhash]
        | true => exact Or.inl ⟨hash, hseq, hprev, hseal, hhash⟩

/-! ## Entries of a file -/

variable (I)

/-- The object on a line, if it is one. -/
def parseLine (line : Bytes) : Option (Entry F) :=
  match I.loads line with
  | .ok v => match v.json with
    | .obj d => some d
    | _ => none
  | .error _ => none

/-- The lines `verify` does not skip. -/
def entryLines (file : File) : List Bytes := (fileLines (file.getD [])).filter fun l ↦ !blank l

/-- The nonblank lines of the file are these objects, in this order. -/
def Parses (file : File) (es : List (Entry F)) : Prop :=
  (entryLines file).map (parseLine I) = es.map some

/-- The loop of `verify` over parsed entries. -/
def verifyEntries : List (Entry F) → PyStr → ℕ → Json F → Except PyError (VerifyResult F)
  | [], prev, _, entries => .ok ⟨true, entries, prev, none, .none⟩
  | d :: ds, prev, expected, entries =>
    match checkEntry I d prev expected entries with
    | .error e => .error e
    | .ok (.inl report) => .ok report
    | .ok (.inr hash) => verifyEntries ds hash (expected + 1) (seqOf d)

variable {I}

omit [PyFloat F] in
theorem loads_of_parseLine {line : Bytes} {d : Entry F} (h : parseLine I line = some d) :
    ∃ v, I.loads line = .ok v ∧ v.json = .obj d := by
  rw [parseLine] at h
  split at h
  · rename_i v hv
    split at h
    · rename_i d' hd'
      exact ⟨v, hv, by rw [hd', Option.some.inj h]⟩
    · exact absurd h (by simp)
  · exact absurd h (by simp)

omit [PyFloat F] in
theorem parseLine_of_loads {line : Bytes} {v : Value F} {d : Entry F} (h : I.loads line = .ok v)
    (hobj : v.json = .obj d) : parseLine I line = some d := by
  simp [parseLine, h, hobj]

omit [PyFloat F] in
theorem wf_of_parseLine {line : Bytes} {d : Entry F} (h : parseLine I line = some d) :
    (Json.obj d).wf = true := by
  obtain ⟨v, -, hjson⟩ := loads_of_parseLine h
  rw [← hjson]
  exact v.wf

omit [PyFloat F] in
theorem Parses.wf {file : File} {es : List (Entry F)} (h : Parses I file es) :
    ∀ d ∈ es, (Json.obj d).wf = true := by
  intro d hd
  have hmem : some d ∈ (entryLines file).map (parseLine I) := by
    rw [show (entryLines file).map (parseLine I) = es.map some from h]
    exact List.mem_map_of_mem hd
  obtain ⟨line, -, hline⟩ := List.mem_map.mp hmem
  exact wf_of_parseLine hline

/-- Where every line parses, `verify` reads the entries and nothing else. -/
theorem verifyLines_eq_verifyEntries {lines : List Bytes} {es : List (Entry F)}
    (h : (lines.filter fun l ↦ !blank l).map (parseLine I) = es.map some) (number : ℕ)
    (prev : PyStr) (expected : ℕ) (entries : Json F) :
    verifyLines I lines number prev expected entries =
      verifyEntries I es prev expected entries := by
  induction lines generalizing es number prev expected entries with
  | nil =>
    have hnil : es = [] := by simpa using h.symm
    subst hnil
    rfl
  | cons line lines ih =>
    cases hblank : blank line with
    | true =>
      rw [List.filter_cons_of_neg (by simp [hblank])] at h
      rw [verifyLines, hblank, if_pos rfl]
      exact ih h _ _ _ _
    | false =>
      rw [List.filter_cons_of_pos (by simp [hblank]), List.map_cons] at h
      cases es with
      | nil => exact absurd h (by simp)
      | cons d ds =>
        rw [List.map_cons, List.cons.injEq] at h
        obtain ⟨hline, hrest⟩ := h
        obtain ⟨v, hloads, hjson⟩ := loads_of_parseLine hline
        rw [verifyLines, if_neg (by simp [hblank]), hloads]
        simp only [hjson]
        rw [verifyEntries]
        cases checkEntry I d prev expected entries with
        | error e => rfl
        | ok next =>
          cases next with
          | inl report => rfl
          | inr hash => exact ih hrest _ _ _ _

theorem verify_eq {file : File} {es : List (Entry F)} (h : Parses I file es) :
    verify I file = verifyEntries I es GENESIS 1 (.int 0) := by
  cases file with
  | none =>
    have hnil : es = [] := by simpa [Parses, entryLines, fileLines] using h.symm
    rw [hnil]
    rfl
  | some content => exact verifyLines_eq_verifyEntries h 1 GENESIS 1 (.int 0)

/-! ## Accepted files -/

theorem Passes.verifyEntries {prev : PyStr} {expected : ℕ} {d : Entry F} {hash : PyStr}
    (h : Passes I prev expected d hash) (ds : List (Entry F)) (entries : Json F) :
    verifyEntries I (d :: ds) prev expected entries =
      verifyEntries I ds hash (expected + 1) (seqOf d) := by
  rw [Audit.verifyEntries, checkEntry_of_passes h]

variable (I) in
/-- Entries that pass one after the other, from `prev` and `expected` on. -/
def Accepted : PyStr → ℕ → List (Entry F) → Prop
  | _, _, [] => True
  | prev, expected, d :: ds =>
    ∃ hash, Passes I prev expected d hash ∧ Accepted hash (expected + 1) ds

/-- A file with an ok report holds only objects, each of which passed. -/
theorem accepted_of_ok {lines : List Bytes} {number : ℕ} {prev : PyStr} {expected : ℕ}
    {entries : Json F} {r : VerifyResult F}
    (h : verifyLines I lines number prev expected entries = .ok r) (hok : r.ok = true) :
    ∃ es, (lines.filter fun l ↦ !blank l).map (parseLine I) = es.map some ∧
      Accepted I prev expected es := by
  induction lines generalizing number prev expected entries with
  | nil => exact ⟨[], rfl, trivial⟩
  | cons line lines ih =>
    rw [verifyLines] at h
    cases hblank : blank line with
    | true =>
      rw [if_pos hblank] at h
      obtain ⟨es, hes, hacc⟩ := ih h
      exact ⟨es, by rwa [List.filter_cons_of_neg (by simp [hblank])], hacc⟩
    | false =>
      rw [if_neg (by simp [hblank])] at h
      cases hparse : parseLine I line with
      | none =>
        -- a line that is no object is reported, or stops the walk with an exception
        unfold parseLine at hparse
        cases hloads : I.loads line with
        | error e =>
          rw [hloads] at h
          cases e <;> simp only [Except.ok.injEq, reduceCtorEq] at h
          rw [← h] at hok
          exact absurd hok (by simp)
        | ok v =>
          rw [hloads] at h hparse
          cases hjson : v.json <;> simp [hjson] at h hparse
      | some d =>
        obtain ⟨v, hloads, hjson⟩ := loads_of_parseLine hparse
        simp only [hloads, hjson] at h
        rcases checkEntry_cases (I := I) d prev expected entries with
          ⟨hash, hpass⟩ | ⟨-, reason, hcheck⟩ | ⟨-, -, reason, hcheck⟩ | ⟨-, -, e, -, hcheck⟩
        · rw [checkEntry_of_passes hpass] at h
          obtain ⟨es, hes, hacc⟩ := ih h
          refine ⟨d :: es, ?_, hash, hpass, hacc⟩
          rw [List.filter_cons_of_pos (by simp [hblank]), List.map_cons, hparse, hes, List.map_cons]
        · rw [hcheck] at h
          rw [← Except.ok.inj h] at hok
          exact absurd hok (by simp)
        · rw [hcheck] at h
          rw [← Except.ok.inj h] at hok
          exact absurd hok (by simp)
        · rw [hcheck] at h
          exact absurd h (by simp)

theorem accepted_of_verify {file : File} {r : VerifyResult F} (h : verify I file = .ok r)
    (hok : r.ok = true) : ∃ es, Parses I file es ∧ Accepted I GENESIS 1 es := by
  cases file with
  | none => exact ⟨[], rfl, trivial⟩
  | some content => exact accepted_of_ok h hok

omit [PyFloat F] in
theorem parses_unique {file : File} {es fs : List (Entry F)} (hes : Parses I file es)
    (hfs : Parses I file fs) : es = fs :=
  List.map_injective_iff.mpr (Option.some_injective _) ((Eq.symm hes).trans hfs)

/-- The string an entry holds under a key. -/
def strAt (key : PyStr) (d : Entry F) : PyStr :=
  match dictGet d key with
  | some (.str s) => s
  | _ => []

omit [PyFloat F] in
theorem strAt_of_isStr {d : Entry F} {key s : PyStr} (h : isStr (dictGet d key) s = true) :
    strAt key d = s := by
  rw [strAt, eq_of_isStr h]

theorem accepted_append {es ds : List (Entry F)} {prev : PyStr} {expected : ℕ} :
    Accepted I prev expected (es ++ ds) ↔ Accepted I prev expected es ∧
      Accepted I (HashChain.head (strAt keyHash) prev es) (expected + es.length) ds := by
  induction es generalizing prev expected with
  | nil => simp [Accepted]
  | cons d es ih =>
    have hcount : expected + (d :: es).length = expected + 1 + es.length := by
      rw [List.length_cons]
      omega
    constructor
    · rintro ⟨hash, hpass, hrest⟩
      obtain ⟨hes, hds⟩ := ih.mp hrest
      refine ⟨⟨hash, hpass, hes⟩, ?_⟩
      rwa [HashChain.head_cons, strAt_of_isStr hpass.hash, hcount]
    · rintro ⟨⟨hash, hpass, hes⟩, hds⟩
      rw [HashChain.head_cons, strAt_of_isStr hpass.hash, hcount] at hds
      exact ⟨hash, hpass, ih.mpr ⟨hes, hds⟩⟩

theorem Accepted.getElem? {es : List (Entry F)} {prev : PyStr} {expected : ℕ}
    (h : Accepted I prev expected es) {k : ℕ} {d : Entry F} (hd : es[k]? = some d) :
    ∃ hash, Passes I (HashChain.head (strAt keyHash) prev (es.take k)) (expected + k) d hash := by
  obtain ⟨hlt, rfl⟩ := List.getElem?_eq_some_iff.mp hd
  have hsplit : es = es.take k ++ es[k] :: es.drop (k + 1) := by simp
  rw [hsplit] at h
  obtain ⟨-, hash, hpass, -⟩ := accepted_append.mp h
  rw [List.length_take_of_le hlt.le] at hpass
  exact ⟨hash, hpass⟩

end

end FourCE.Audit

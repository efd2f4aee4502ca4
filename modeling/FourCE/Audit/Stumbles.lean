import FourCE.Audit.Tamper

/-!
# Files `verify` cannot report on

`verify` catches only what `json.loads` raises as a `ValueError`.  A line that is no object, or one
whose hash cannot be taken, ends the walk with an exception instead of a report, provided the walk
gets that far: every line before it has to pass.
-/

namespace FourCE.Audit

open FourCE.Python FourCE.Library

section

variable {F : Type} [PyFloat F] (I : Interp F)

/-! ## The line that raises -/

/-- A line on which `verify` raises, when it is the next one after `prev`. -/
inductive Stumbles (prev : PyStr) (expected : ℕ) (line : Bytes) : Prop
  /-- `json.loads` fails with something else than a `ValueError`. -/
  | unread (e : PyError) (h : I.loads line = .error e) (hne : ∀ m, e ≠ .valueError m)
  /-- JSON, but no object: it has no `get`. -/
  | noObject (v : Value F) (h : I.loads line = .ok v) (hne : ∀ d, v.json ≠ .obj d)
  /-- In its place, but with a lone surrogate that cannot be encoded. -/
  | noHash (d : Entry F) (h : parseLine I line = some d) (hseq : eqInt (seqOf d) expected = true)
    (hprev : isStr (dictGet d keyPrev) prev = true) (hhash : ¬ Hashable d)

/-- Somewhere in these lines, after lines that all pass, stands one that raises. -/
def StumblesAmong (prev : PyStr) (expected : ℕ) (lines : List Bytes) : Prop :=
  ∃ before line after es, lines = before ++ line :: after ∧
    before.map (parseLine I) = es.map some ∧ Accepted I prev expected es ∧
    Stumbles I (HashChain.head (strAt keyHash) prev es) (expected + es.length) line

variable {I}

theorem stumblesAmong_nil (prev : PyStr) (expected : ℕ) : ¬ StumblesAmong I prev expected [] := by
  rintro ⟨before, line, after, es, hlines, -⟩
  exact absurd hlines (by simp)

theorem stumblesAmong_of_stumbles {prev : PyStr} {expected : ℕ} {line : Bytes} {lines : List Bytes}
    (h : Stumbles I prev expected line) : StumblesAmong I prev expected (line :: lines) :=
  ⟨[], line, lines, [], rfl, rfl, trivial, h⟩

/-- After a line that passes, the walk stumbles where it stumbles over the rest. -/
theorem stumblesAmong_cons_of_passes {prev : PyStr} {expected : ℕ} {line : Bytes}
    {lines : List Bytes} {d : Entry F} {hash : PyStr} (hparse : parseLine I line = some d)
    (hpass : Passes I prev expected d hash) :
    StumblesAmong I prev expected (line :: lines) ↔
      StumblesAmong I hash (expected + 1) lines := by
  have hhash : strAt keyHash d = hash := strAt_of_isStr hpass.hash
  constructor
  · rintro ⟨before, line', after, es, hlines, hparsed, hacc, hstumble⟩
    cases before with
    | nil =>
      obtain ⟨rfl, rfl⟩ := List.cons.inj hlines
      have hnil : es = [] := by simpa using hparsed.symm
      subst hnil
      cases hstumble with
      | unread e h hne => exact absurd hparse (by simp [parseLine, h])
      | noObject v h hne =>
        obtain ⟨w, hw, hobj⟩ := loads_of_parseLine hparse
        rw [h] at hw
        obtain rfl := Except.ok.inj hw
        exact absurd hobj (hne d)
      | noHash d' h hseq hprev hunhashable =>
        obtain rfl := Option.some.inj (hparse.symm.trans h)
        exact absurd ((hashable_iff d).mpr ⟨hash, hpass.isSealed⟩) hunhashable
    | cons line'' before =>
      obtain ⟨rfl, rfl⟩ := List.cons.inj hlines
      cases es with
      | nil => exact absurd hparsed (by simp)
      | cons e es =>
        rw [List.map_cons, List.map_cons, List.cons.injEq, hparse, Option.some.injEq] at hparsed
        obtain ⟨rfl, hparsed⟩ := hparsed
        obtain ⟨hash', hpass', hacc⟩ := hacc
        have hsame : hash' = hash := (strAt_of_isStr hpass'.hash).symm.trans hhash
        subst hsame
        rw [HashChain.head_cons, hhash, List.length_cons] at hstumble
        refine ⟨before, line', after, es, rfl, hparsed, hacc, ?_⟩
        rwa [Nat.add_right_comm, Nat.add_assoc]
  · rintro ⟨before, line', after, es, rfl, hparsed, hacc, hstumble⟩
    refine ⟨line :: before, line', after, d :: es, rfl, ?_, ⟨hash, hpass, hacc⟩, ?_⟩
    · rw [List.map_cons, hparse, hparsed, List.map_cons]
    · rwa [HashChain.head_cons, hhash, List.length_cons, ← Nat.add_assoc, Nat.add_right_comm]

/-! ## One line -/

/-- A line that ends the walk with a report is none that raises. -/
theorem not_stumblesAmong_of_reported {prev : PyStr} {expected : ℕ} {line : Bytes}
    {lines : List Bytes} (hstumble : ¬ Stumbles I prev expected line)
    (hpass : ∀ d hash, parseLine I line = some d → ¬ Passes I prev expected d hash) :
    ¬ StumblesAmong I prev expected (line :: lines) := by
  rintro ⟨before, line', after, es, hlines, hparsed, hacc, h⟩
  cases before with
  | nil =>
    obtain ⟨rfl, rfl⟩ := List.cons.inj hlines
    have hnil : es = [] := by simpa using hparsed.symm
    subst hnil
    exact hstumble h
  | cons line'' before =>
    obtain ⟨rfl, rfl⟩ := List.cons.inj hlines
    cases es with
    | nil => exact absurd hparsed (by simp)
    | cons d es =>
      obtain ⟨hash, hd, -⟩ := hacc
      rw [List.map_cons, List.map_cons, List.cons.injEq] at hparsed
      exact hpass d hash hparsed.1 hd

variable (I) in
/-- `verify` ends its walk at this line with a report. -/
structure Reported (prev : PyStr) (expected : ℕ) (line : Bytes) : Prop where
  noRaise : ¬ Stumbles I prev expected line
  noPass : ∀ d hash, parseLine I line = some d → ¬ Passes I prev expected d hash
  report : ∀ lines number entries, ∃ r,
    verifyLines I (line :: lines) number prev expected entries = .ok r ∧ r.ok = false

/-- A line that is no JSON is reported, or raises. -/
theorem unread_cases {prev : PyStr} {expected : ℕ} {line : Bytes} (hblank : blank line = false)
    {e : PyError} (h : I.loads line = .error e) :
    (Stumbles I prev expected line ∧ ∀ lines number entries,
      verifyLines I (line :: lines) number prev expected entries = .error e) ∨
    Reported I prev expected line := by
  have hparse (d : Entry F) : parseLine I line ≠ some d := by simp [parseLine, h]
  by_cases hvalue : ∃ m, e = .valueError m
  · obtain ⟨m, rfl⟩ := hvalue
    refine Or.inr ⟨?_, fun d _ hd ↦ absurd hd (hparse d), fun lines number entries ↦ ?_⟩
    · rintro (⟨e', h', hne⟩ | ⟨v, h', -⟩ | ⟨d, h', -⟩)
      · rw [h] at h'
        exact hne m (Except.error.inj h').symm
      · exact absurd (h.symm.trans h') (by simp)
      · exact hparse d h'
    · rw [verifyLines, if_neg (by simp [hblank]), h]
      exact ⟨_, rfl, rfl⟩
  · have hne : ∀ m, e ≠ .valueError m := fun m hm ↦ hvalue ⟨m, hm⟩
    refine Or.inl ⟨.unread e h hne, fun lines number entries ↦ ?_⟩
    rw [verifyLines, if_neg (by simp [hblank]), h]
    cases e with
    | valueError m => exact absurd rfl (hne m)
    | _ => rfl

theorem verifyLines_cons_of_obj {line : Bytes} (hblank : blank line = false) {v} (hloads : I.loads line = .ok v)
    {d : Entry F} (hd : v.json = .obj d) (prev : PyStr) (expected : ℕ) (lines : List Bytes) (number : ℕ)
    (entries : Json F) : verifyLines I (line :: lines) number prev expected entries =
      match checkEntry I d prev expected entries with
      | .error e => .error e
      | .ok (.inl report) => .ok report
      | .ok (.inr hash) => verifyLines I lines (number + 1) hash (expected + 1) (seqOf d) := by
  rw [verifyLines, if_neg (by simp [hblank])]
  simp only [hloads, hd] <;> rfl

/-- What `verify` does at a line: it goes on with the entry's hash, raises, or reports. -/
theorem line_cases (prev : PyStr) (expected : ℕ) {line : Bytes} (hblank : blank line = false) :
    (∃ d hash, parseLine I line = some d ∧ Passes I prev expected d hash ∧
      ∀ lines number entries, verifyLines I (line :: lines) number prev expected entries =
        verifyLines I lines (number + 1) hash (expected + 1) (seqOf d)) ∨
    (Stumbles I prev expected line ∧ ∃ e, ∀ lines number entries,
      verifyLines I (line :: lines) number prev expected entries = .error e) ∨
    Reported I prev expected line := by
  cases hloads : I.loads line with
  | error e =>
    exact Or.inr ((unread_cases hblank hloads).imp_left fun h ↦ ⟨h.1, e, h.2⟩)
  | ok v =>
    by_cases hobj : ∃ d, v.json = .obj d
    · obtain ⟨d, hd⟩ := hobj
      have hparse := parseLine_of_loads hloads hd
      have hwalk := verifyLines_cons_of_obj hblank hloads hd prev expected
      have hreported (hpass : ∀ hash, ¬ Passes I prev expected d hash)
          (hraise : ¬ (eqInt (seqOf d) expected = true ∧ isStr (dictGet d keyPrev) prev = true ∧
            ¬ Hashable d))
          (hcheck : ∀ entries, ∃ b reason, checkEntry I d prev expected entries =
            .ok (.inl ⟨false, entries, prev, b, reason⟩)) : Reported I prev expected line := by
        refine ⟨?_, fun d' hash hd' hpass' ↦ ?_, fun lines number entries ↦ ?_⟩
        · rintro (⟨e, h, -⟩ | ⟨w, h, hne⟩ | ⟨d', h, hseq, hprev, hhash⟩)
          · exact absurd (hloads.symm.trans h) (by simp)
          · obtain rfl := Except.ok.inj (hloads.symm.trans h)
            exact hne d hd
          · obtain rfl := Option.some.inj (hparse.symm.trans h)
            exact hraise ⟨hseq, hprev, hhash⟩
        · obtain rfl := Option.some.inj (hparse.symm.trans hd')
          exact hpass hash hpass'
        · obtain ⟨b, reason, hcheck⟩ := hcheck entries
          rw [hwalk, hcheck]
          exact ⟨_, rfl, rfl⟩
      cases hseq : eqInt (seqOf d) expected with
      | false =>
        refine Or.inr (Or.inr (hreported (fun hash h ↦ ?_) (fun h ↦ ?_) fun entries ↦ ?_))
        · exact absurd (hseq.symm.trans h.seq) (by simp)
        · exact absurd (hseq.symm.trans h.1) (by simp)
        · exact ⟨_, _, by rw [checkEntry, if_pos hseq]⟩
      | true =>
        cases hprev : isStr (dictGet d keyPrev) prev with
        | false =>
          refine Or.inr (Or.inr (hreported (fun hash h ↦ ?_) (fun h ↦ ?_) fun entries ↦ ?_))
          · exact absurd (hprev.symm.trans h.prev) (by simp)
          · exact absurd (hprev.symm.trans h.2.1) (by simp)
          · exact ⟨_, _, by rw [checkEntry, if_neg (by simp [hseq]), if_pos hprev]⟩
        | true =>
          cases hseal : sealOf I d with
          | error e =>
            have hhash : ¬ Hashable d := by
              rw [hashable_iff (I := I), hseal]
              simp
            refine Or.inr (Or.inl ⟨.noHash d hparse hseq hprev hhash, e, fun _ _ _ ↦ ?_⟩)
            rw [hwalk, checkEntry, hseq, hprev, hseal]
            rfl
          | ok hash =>
            cases hhash : isStr (dictGet d keyHash) hash with
            | true =>
              have hpass : Passes I prev expected d hash := ⟨hseq, hprev, hseal, hhash⟩
              refine Or.inl ⟨d, hash, hparse, hpass, fun lines number entries ↦ ?_⟩
              rw [hwalk, checkEntry_of_passes hpass]
            | false =>
              refine Or.inr (Or.inr (hreported (fun hash' h ↦ ?_) (fun h ↦ ?_) fun entries ↦ ?_))
              · obtain rfl := Except.ok.inj (hseal.symm.trans h.isSealed)
                exact absurd (hhash.symm.trans h.hash) (by simp)
              · exact h.2.2 ((hashable_iff d).mpr ⟨hash, hseal⟩)
              · refine ⟨some (seqOf d), .changed (seqOf d), ?_⟩
                rw [checkEntry, hseq, hprev, hseal]
                simp [hhash]
    · have hne : ∀ d, v.json ≠ .obj d := fun d hd ↦ hobj ⟨d, hd⟩
      refine Or.inr (Or.inl ⟨.noObject v hloads hne, .attributeError, fun lines number entries ↦ ?_⟩)
      rw [verifyLines, if_neg (by simp [hblank])]
      simp only [hloads]

/-- `verify` raises exactly where a line it reaches does. -/
theorem verifyLines_raises_iff (lines : List Bytes) (number : ℕ) (prev : PyStr) (expected : ℕ)
    (entries : Json F) :
    (∃ e, verifyLines I lines number prev expected entries = .error e) ↔
      StumblesAmong I prev expected (lines.filter fun l ↦ !blank l) := by
  induction lines generalizing number prev expected entries with
  | nil =>
    refine iff_of_false ?_ (stumblesAmong_nil prev expected)
    rintro ⟨e, h⟩
    exact absurd h (by simp [verifyLines])
  | cons line lines ih =>
    cases hblank : blank line with
    | true =>
      rw [List.filter_cons_of_neg (by simp [hblank]), verifyLines, if_pos hblank]
      exact ih (number + 1) prev expected entries
    | false =>
      rw [List.filter_cons_of_pos (by simp [hblank])]
      rcases line_cases (I := I) prev expected hblank with
        ⟨d, hash, hparse, hpass, hwalk⟩ | ⟨hstumble, e, hwalk⟩ | hreported
      · rw [hwalk, stumblesAmong_cons_of_passes hparse hpass]
        exact ih (number + 1) hash (expected + 1) (seqOf d)
      · exact iff_of_true ⟨e, hwalk lines number entries⟩ (stumblesAmong_of_stumbles hstumble)
      · obtain ⟨r, hr, -⟩ := hreported.report lines number entries
        refine iff_of_false ?_ (not_stumblesAmong_of_reported hreported.noRaise hreported.noPass)
        rintro ⟨e, h⟩
        exact absurd (hr.symm.trans h) (by simp)

/-! ## What an ok report means -/

variable (I) in
/-- The entries are numbered from 1, each holds the hash of the one before it, and its own hash is
the seal of its content. -/
def InOrder (es : List (Entry F)) : Prop :=
  ∀ k d, es[k]? = some d → eqInt (seqOf d) (k + 1 : ℕ) = true ∧
    dictGet d keyPrev = some (.str (HashChain.head (strAt keyHash) GENESIS (es.take k))) ∧
    ∃ hash, sealOf I d = .ok hash ∧ dictGet d keyHash = some (.str hash)

theorem Accepted.inOrder {es : List (Entry F)} (h : Accepted I GENESIS 1 es) : InOrder I es := by
  intro k d hd
  obtain ⟨hash, hpass⟩ := h.getElem? hd
  rw [Nat.add_comm] at hpass
  exact ⟨hpass.seq, eq_of_isStr hpass.prev, hash, hpass.isSealed, eq_of_isStr hpass.hash⟩

/-! ## When `verify` reports -/

/-- `verify` returns a result, and an ok one only for entries in order, exactly when no line that
follows entries in order is one on which it raises. -/
theorem verify_reports_iff (file : File) :
    ((∃ r, verify I file = .ok r) ∧
      ∀ r, verify I file = .ok r → r.ok = true → ∃ es, Parses I file es ∧ InOrder I es) ↔
    ¬ StumblesAmong I GENESIS 1 (entryLines file) := by
  have hraises : (∃ e, verify I file = .error e) ↔ StumblesAmong I GENESIS 1 (entryLines file) := by
    cases file with
    | none =>
      refine iff_of_false ?_ (stumblesAmong_nil GENESIS 1)
      rintro ⟨e, h⟩
      exact absurd h (by simp [verify])
    | some content => exact verifyLines_raises_iff (fileLines content) 1 GENESIS 1 (.int 0)
  rw [← hraises]
  constructor
  · rintro ⟨⟨r, hr⟩, -⟩ ⟨e, he⟩
    exact absurd (hr.symm.trans he) (by simp)
  · intro hnone
    refine ⟨?_, fun r hr hok ↦ ?_⟩
    · cases hverify : verify I file with
      | ok r => exact ⟨r, rfl⟩
      | error e => exact absurd ⟨e, hverify⟩ hnone
    · obtain ⟨es, hes, hacc⟩ := accepted_of_verify hr hok
      exact ⟨es, hes, hacc.inOrder⟩

end

/-- One line holding an empty list is no trail, and no report. -/
theorem list_line_not_reported :
    ¬ ∀ file, (∃ r, verify sampleInterp file = .ok r) ∧
      ∀ r, verify sampleInterp file = .ok r → r.ok = true →
        ∃ es, Parses sampleInterp file es ∧ InOrder sampleInterp es := by
  intro hclaim
  have hraises : (match verify sampleInterp (some [91, 93, 10]) with
      | .ok _ => false
      | .error _ => true) = true := by decide
  obtain ⟨⟨r, hr⟩, -⟩ := hclaim (some [91, 93, 10])
  simp [hr] at hraises

end FourCE.Audit

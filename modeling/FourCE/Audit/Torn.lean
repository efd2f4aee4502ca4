import FourCE.Audit.Runs
import FourCE.Python.JsonPrefix

/-!
# Appends that break off

A write that breaks off leaves part of its line at the end of the file.  If anything of the line is
there, the trail does not recover: part of an object is no JSON, so every later append fails before
it writes; a whole object without its newline is continued by the next line, and the two together
are no JSON either.
-/

namespace FourCE.Audit

open FourCE.Python FourCE.Library

/-! ## Whole objects -/

/-- `json.loads` reads an object whole and alone: it refuses one that is cut short, and one with
another behind it. -/
structure LoadsWholeObjects {F : Type} [PyFloat F] (loads : Bytes → Except PyError (Value F)) :
    Prop where
  cut : ∀ (d : Entry F) (b p q : Bytes), (Json.obj d).wf = true →
    encodeUtf8 (dumps (.obj d)) = some b → b = p ++ q → q ≠ [] → ∃ e, loads p = .error e
  glued : ∀ (d : Entry F) (b rest : Bytes), (Json.obj d).wf = true →
    encodeUtf8 (dumps (.obj d)) = some b → ∃ e, loads (b ++ 123 :: rest) = .error e

section

variable {F : Type} [PyFloat F]

variable {I : Interp F}

/-- The file ends in something that is no entry, and the object has forgotten its head. -/
structure Wedged (I : Interp F) (s : State) : Prop where
  forgotten : s.trail.seq = none
  unread : ∃ e, readHead I s.file = .error e

theorem Wedged.step {s : State} (h : Wedged I s) (op : Op F) :
    Wedged I (step I s op) ∧ entryOf I s op = none := by
  obtain ⟨e, he⟩ := h.unread
  have hloaded : s.trail.loaded I s.file = .error e := by
    rw [AuditTrail.loaded, h.forgotten, he]
    rfl
  cases op with
  | append outcome now context action fields =>
    have hdone : s.trail.append I s.file outcome now context action fields =
        ⟨none, s.trail.failed e, s.file⟩ := by
      rw [AuditTrail.append, hloaded]
    simp only [Audit.step, entryOf, hdone]
    exact ⟨⟨rfl, e, he⟩, trivial⟩
  | status =>
    simp only [Audit.step, AuditTrail.status, hloaded]
    exact ⟨⟨h.forgotten, e, he⟩, rfl⟩
  | reopen => exact ⟨⟨rfl, e, he⟩, rfl⟩

theorem Wedged.run {s : State} (h : Wedged I s) (ops : List (Op F)) : Wedged I (run I s ops) := by
  induction ops generalizing s with
  | nil => exact h
  | cons op ops ih => exact ih (h.step op).1

/-- After a record without its newline stands nothing, or a line that begins with another entry. -/
structure Glued (rs : List (Record I)) (r : Record I) (file : File) (tail : Bytes) : Prop where
  content : file.getD [] = wholeLines (rs.map Record.bytes) ++ (r.bytes ++ tail)
  tail : tail = [] ∨ ∃ x y, tail = 123 :: x ++ 10 :: y ∧ (10 : UInt8) ∉ x

theorem Glued.append {rs : List (Record I)} {r : Record I} {file file' : File} {tail b : Bytes}
    (h : Glued rs r file tail) (hb : (10 : UInt8) ∉ b) (hopens : ∃ rest, b = 123 :: rest)
    (hfile : file'.getD [] = file.getD [] ++ (b ++ [10])) :
    ∃ tail', tail' ≠ [] ∧ Glued rs r file' tail' := by
  obtain ⟨rest, rfl⟩ := hopens
  refine ⟨tail ++ (123 :: rest ++ [10]), by simp, ?_, Or.inr ?_⟩
  · rw [hfile, h.content, List.append_assoc, List.append_assoc]
  · simp only [List.mem_cons, not_or] at hb
    rcases h.tail with rfl | ⟨x, y, rfl, hx⟩
    · exact ⟨rest, [], rfl, hb.2⟩
    · exact ⟨x, y ++ (123 :: rest ++ [10]), by simp, hx⟩

/-- A later append writes behind the object, or not at all. -/
theorem Glued.step {rs : List (Record I)} {r : Record I} {s : State} {tail : Bytes}
    (h : Glued rs r s.file tail) (op : Op F) (hop : op.whole = true) :
    ∃ tail', Glued rs r (step I s op).file tail' ∧ ((entryOf I s op).isSome → tail' ≠ []) := by
  cases op with
  | status => exact ⟨tail, h, by simp [entryOf]⟩
  | reopen => exact ⟨tail, h, by simp [entryOf]⟩
  | append outcome now context action fields =>
    cases hp : s.trail.prepare I s.file now context action fields with
    | none =>
      obtain ⟨u, e, file', hfile, hdone⟩ := append_unprepared hp outcome
      simp only [Audit.step, entryOf, hdone]
      exact ⟨tail, ⟨hfile.trans h.content, h.tail⟩, by simp⟩
    | some p =>
      have hencoded := prepare_encoded hp
      have hfile : (some (s.file.getD [] ++ (p.bytes ++ [10])) : File).getD [] =
          s.file.getD [] ++ (p.bytes ++ [10]) := rfl
      obtain ⟨tail', hne, hglued⟩ := h.append (newline_notMem_of_encoded hencoded)
        (opens_of_encoded hencoded) hfile
      simp only [Audit.step, entryOf, append_prepared hp]
      cases outcome with
      | notOpened e => exact ⟨tail, h, by simp⟩
      | cut n e =>
        have hn : n = 0 := of_decide_eq_true hop
        subst hn
        exact ⟨tail, ⟨by simpa using h.content, h.tail⟩, by simp⟩
      | unsynced e => exact ⟨tail', hglued, fun _ ↦ hne⟩
      | written => exact ⟨tail', hglued, fun _ ↦ hne⟩

theorem Glued.run {rs : List (Record I)} {r : Record I} {s : State} {tail : Bytes}
    (h : Glued rs r s.file tail) {ops : List (Op F)} (hops : ∀ op ∈ ops, op.whole = true) :
    ∃ tail', Glued rs r (run I s ops).file tail' := by
  induction ops generalizing s tail with
  | nil => exact ⟨tail, h⟩
  | cons op ops ih =>
    obtain ⟨tail', h', -⟩ := h.step op (hops op List.mem_cons_self)
    exact ih h' fun op hop ↦ hops op (List.mem_cons_of_mem _ hop)

/-- Two objects on one line are no entry, so the file is not accepted. -/
theorem Glued.not_accepted (hobjects : LoadsWholeObjects I.loads) {rs : List (Record I)}
    {r : Record I} {file : File} {tail : Bytes} (h : Glued rs r file tail) (hne : tail ≠ [])
    {v : VerifyResult F} (hv : verify I file = .ok v) : v.ok = false := by
  obtain rfl | ⟨x, y, rfl, hx⟩ := h.tail
  · exact absurd rfl hne
  by_contra hok
  rw [Bool.not_eq_false] at hok
  have hsplit : file.getD [] = wholeLines (rs.map Record.bytes) ++ ((r.bytes ++ 123 :: x) ++ 10 :: y) := by
    rw [h.content]
    simp
  have hline : (r.bytes ++ 123 :: x) ++ [10] ∈ entryLines file := by
    rw [entryLines, hsplit, fileLines_wholeLines_append fun c hc ↦ newline_notMem_of_mem hc,
      fileLines_line _ _ (by simp [r.newline_notMem, hx]), List.mem_filter]
    refine ⟨by simp, ?_⟩
    obtain ⟨rest, hrest⟩ := r.bytes_opens
    simp [hrest, blank_opens]
  obtain ⟨e, he⟩ := hobjects.glued r.entry r.bytes (x ++ [10]) r.wf r.encoded
  have hparse : parseLine I ((r.bytes ++ 123 :: x) ++ [10]) = none := by
    simp [parseLine, he]
  obtain ⟨es, hes, -⟩ := accepted_of_verify hv hok
  have hmem := List.mem_map_of_mem (f := parseLine I) hline
  rw [hparse, show (entryLines file).map (parseLine I) = es.map some from hes] at hmem
  exact absurd hmem (by simp)

/-! ## What a torn append leaves -/

section Torn

variable {s : State} {rs : List (Record I)} {now : F} {context fields : Fields F} {action : PyStr}
  {p : Prepared F} {r : Record I}

theorem Holds.glued (h : Holds I s.trail s.file rs)
    (hp : s.trail.prepare I s.file now context action fields = some p) (hr : r.bytes = p.bytes)
    (e : PyError) :
    Glued rs r (Audit.step I s (.append (.cut r.bytes.length e) now context action fields)).file [] := by
  simp only [Audit.step, append_prepared hp]
  refine ⟨?_, Or.inl rfl⟩
  rw [Option.getD_some, h.content, ← hr, List.take_left, List.append_nil]

end Torn

/-! ## Recovery -/

end

/-! ## A torn append -/

end FourCE.Audit

import FourCE.Audit.Records

/-!
# What one append does

An append first prepares its entry: it loads the head, builds the entry, seals it and encodes the
line.  Only then does it write, and how the write ends decides the rest.  Said once here, for any
file and any way of ending.
-/

namespace FourCE.Audit

open FourCE.Python FourCE.Library

section

variable {F : Type} [PyFloat F] (I : Interp F)

/-! ## Preparing an entry -/

/-- An entry about to be written, by an object that has its head loaded. -/
structure Prepared (F : Type) where
  trail : AuditTrail
  seq : ℤ
  hash : PyStr
  entry : Entry F
  bytes : Bytes

/-- The line `append` sets out to write; nothing if it fails before it writes. -/
def AuditTrail.prepare (t : AuditTrail) (file : File) (now : F) (context : Fields F)
    (action : PyStr) (fields : Fields F) : Option (Prepared F) :=
  match t.loaded I file with
  | .error _ => none
  | .ok (t, seq) =>
    let draft := draftEntry seq t.head now context action fields
    match sealOf I draft with
    | .error _ => none
    | .ok hash =>
      let entry := dictSet draft keyHash (.str hash)
      match canonical entry with
      | .error _ => none
      | .ok bytes => some ⟨t, seq, hash, entry, bytes⟩

variable {I} {t : AuditTrail} {file : File} {now : F} {context fields : Fields F} {action : PyStr}

/-- Failing before the write leaves the file's content alone. -/
theorem append_unprepared (h : t.prepare I file now context action fields = none)
    (outcome : WriteOutcome) :
    ∃ (u : AuditTrail) (e : PyError) (file' : File), file'.getD [] = file.getD [] ∧
      t.append I file outcome now context action fields = ⟨none, u.failed e, file'⟩ := by
  rw [AuditTrail.prepare] at h
  rw [AuditTrail.append]
  cases hloaded : t.loaded I file with
  | error e => exact ⟨t, e, file, rfl, rfl⟩
  | ok p =>
    obtain ⟨u, seq⟩ := p
    simp only [hloaded] at h
    dsimp only
    cases hhash : sealOf I (draftEntry seq u.head now context action fields) with
    | error e => exact ⟨u, e, file, rfl, rfl⟩
    | ok hash =>
      simp only [hhash] at h
      dsimp only
      cases hbytes : canonical (dictSet (draftEntry seq u.head now context action fields) keyHash
          (.str hash)) with
      | ok bytes => exact absurd h (by simp [hbytes])
      | error e =>
        cases outcome with
        | notOpened e' => exact ⟨u, e', file, rfl, rfl⟩
        | written => exact ⟨u, e, some (file.getD []), rfl, rfl⟩
        | cut n e' => exact ⟨u, e, some (file.getD []), rfl, rfl⟩
        | unsynced e' => exact ⟨u, e, some (file.getD []), rfl, rfl⟩

/-- A prepared line is written as the outcome says. -/
theorem append_prepared {p : Prepared F} (h : t.prepare I file now context action fields = some p)
    (outcome : WriteOutcome) :
    t.append I file outcome now context action fields =
      match outcome with
      | .notOpened e => ⟨none, p.trail.failed e, file⟩
      | .cut n e => ⟨none, p.trail.failed e, some (file.getD [] ++ (p.bytes ++ [10]).take n)⟩
      | .unsynced e => ⟨none, p.trail.failed e, some (file.getD [] ++ (p.bytes ++ [10]))⟩
      | .written => ⟨some p.entry, { p.trail with seq := some (p.seq + 1), head := p.hash },
          some (file.getD [] ++ (p.bytes ++ [10]))⟩ := by
  rw [AuditTrail.prepare] at h
  rw [AuditTrail.append]
  cases hloaded : t.loaded I file with
  | error e => exact absurd h (by simp [hloaded])
  | ok q =>
    obtain ⟨u, seq⟩ := q
    simp only [hloaded] at h
    dsimp only
    cases hhash : sealOf I (draftEntry seq u.head now context action fields) with
    | error e => exact absurd h (by simp [hhash])
    | ok hash =>
      simp only [hhash] at h
      dsimp only
      cases hbytes : canonical (dictSet (draftEntry seq u.head now context action fields) keyHash
          (.str hash)) with
      | error e => exact absurd h (by simp [hbytes])
      | ok bytes =>
        simp only [hbytes, Option.some.injEq] at h
        subst h
        cases outcome <;> rfl

theorem prepare_loaded {p : Prepared F}
    (h : t.prepare I file now context action fields = some p) :
    t.loaded I file = .ok (p.trail, p.seq) := by
  rw [AuditTrail.prepare] at h
  cases hloaded : t.loaded I file with
  | error e => exact absurd h (by simp [hloaded])
  | ok q =>
    obtain ⟨u, seq⟩ := q
    simp only [hloaded] at h
    split at h
    · exact absurd h (by simp)
    · split at h
      · exact absurd h (by simp)
      · rw [← Option.some.inj h]

theorem prepare_encoded {p : Prepared F}
    (h : t.prepare I file now context action fields = some p) :
    encodeUtf8 (dumps (.obj p.entry)) = some p.bytes := by
  have hloaded := prepare_loaded h
  rw [AuditTrail.prepare] at h
  simp only [hloaded] at h
  split at h
  · exact absurd h (by simp)
  · split at h
    · exact absurd h (by simp)
    · rename_i bytes hbytes
      rw [← Option.some.inj h]
      exact encodeUtf8_of_canonical hbytes

/-- A prepared entry is a record that follows on the head the object has loaded. -/
theorem prepare_record {p : Prepared F} (h : t.prepare I file now context action fields = some p)
    {k : ℕ} (hk : p.seq = k) :
    ∃ r : Record I, r.entry = p.entry ∧ r.bytes = p.bytes ∧ r.hash = p.hash ∧ r.seq = k + 1 ∧
      r.prev = p.trail.head := by
  have hloaded := prepare_loaded h
  rw [AuditTrail.prepare] at h
  simp only [hloaded, hk] at h
  split at h
  · exact absurd h (by simp)
  · rename_i hash hhash
    split at h
    · exact absurd h (by simp)
    · rename_i bytes hbytes
      have hp := Option.some.inj h
      refine ⟨newRecord I k p.trail.head now context action fields hash bytes hhash hbytes,
        ?_, ?_, ?_, rfl, rfl⟩
      · exact congrArg Prepared.entry hp
      · exact congrArg Prepared.bytes hp
      · exact congrArg Prepared.hash hp

end

end FourCE.Audit

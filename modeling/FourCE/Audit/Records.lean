import FourCE.Audit.Checks
import FourCE.Library.HashChain
import FourCE.Python.Dict

/-!
# Records on disk

A record is an entry with the line it is written as and everything its hash commits it to; a file
of records is read back record by record, by `verify` from its start and by `_load_head` from its
end.
-/

namespace FourCE.Audit

open FourCE.Python FourCE.Library

section

variable {F : Type} [PyFloat F] (I : Interp F)

/-! ## Records -/

/-- An entry on disk, with the line it is and what its hash commits it to. -/
structure Record where
  entry : Entry F
  seq : ℕ
  prev : PyStr
  hash : PyStr
  bytes : Bytes
  wf : (Json.obj entry).wf = true
  hasSeq : dictGet entry keySeq = some (.int seq)
  hasPrev : dictGet entry keyPrev = some (.str prev)
  hasHash : dictGet entry keyHash = some (.str hash)
  isSealed : sealOf I entry = .ok hash
  encoded : encodeUtf8 (dumps (.obj entry)) = some bytes

variable {I}

/-- The entry as `json.loads` reads it back. -/
def Record.readBack (r : Record I) : Entry F := (sortMembers r.entry).insertionSort keyLe

theorem Record.nodup (r : Record I) : (dictKeys r.entry).Nodup := ((wf_obj_iff _).mp r.wf).1

theorem Record.get_readBack (r : Record I) (key : PyStr) :
    dictGet r.readBack key = (dictGet r.entry key).map Json.sortKeys :=
  dictGet_sorted r.nodup key

/-- The hash does not depend on the order the keys came back in. -/
theorem Record.sealOf_readBack (r : Record I) : sealOf I r.readBack = .ok r.hash := by
  have hsame := dumps_eq_of_same (same_obj_dictErase r.nodup keyHash)
  rw [← r.isSealed, sealOf, sealOf, canonical, canonical, Record.readBack, hsame]

theorem newline_notMem_of_encoded {d : Entry F} {b : Bytes}
    (h : encodeUtf8 (dumps (.obj d)) = some b) : (10 : UInt8) ∉ b := by
  intro hmem
  obtain ⟨c, hc, hval⟩ := mem_encodeUtf8_of_lt h hmem (by decide)
  have hprinting := printing_dumps _ c hc
  have hten : c.val = 10 := hval
  omega

theorem opens_of_encoded {d : Entry F} {b : Bytes} (h : encodeUtf8 (dumps (.obj d)) = some b) :
    ∃ rest, b = 123 :: rest := by
  have hopen : dumps (.obj d) =
      (123 : CodePoint) :: emitMembers false ((sortMembers d).insertionSort keyLe) := rfl
  rw [hopen, encodeUtf8_cons] at h
  have hplain : (123 : CodePoint).isSurrogate = false := rfl
  simp only [hplain, Bool.false_eq_true, if_false, Option.map_eq_some_iff] at h
  obtain ⟨rest, -, hbytes⟩ := h
  exact ⟨rest, hbytes.symm⟩

theorem Record.newline_notMem (r : Record I) : (10 : UInt8) ∉ r.bytes :=
  newline_notMem_of_encoded r.encoded

theorem Record.bytes_opens (r : Record I) : ∃ rest, r.bytes = 123 :: rest :=
  opens_of_encoded r.encoded

theorem blank_opens (rest : Bytes) : blank (123 :: rest) = false := rfl

theorem Record.blank_bytes (r : Record I) : blank r.bytes = false := by
  obtain ⟨rest, hbytes⟩ := r.bytes_opens
  rw [hbytes, blank_opens]

theorem Record.blank_line (r : Record I) : blank (r.bytes ++ [10]) = false := by
  obtain ⟨rest, hbytes⟩ := r.bytes_opens
  rw [hbytes, List.cons_append, blank_opens]

theorem Record.loads (hI : LoadsInvertsDumps I.loads) (r : Record I) {newline : Bytes}
    (hnewline : newline = [] ∨ newline = [10]) :
    ∃ u, I.loads (r.bytes ++ newline) = .ok u ∧ u.json = .obj r.readBack :=
  hI ⟨.obj r.entry, r.wf⟩ r.bytes r.encoded newline hnewline

/-! ## Verifying records -/

variable (I) in
/-- The records form a chain from `prev` on, numbered from `first`. -/
structure Chained (prev : PyStr) (first : ℕ) (rs : List (Record I)) : Prop where
  linked : HashChain.Linked Record.prev Record.hash prev rs
  numbered : rs.map Record.seq = List.range' first rs.length

theorem Chained.tail {prev : PyStr} {first : ℕ} {r : Record I} {rs : List (Record I)}
    (h : Chained I prev first (r :: rs)) : Chained I r.hash (first + 1) rs := by
  have hnumbered := h.numbered
  rw [List.map_cons, List.length_cons, List.range'_succ] at hnumbered
  exact ⟨h.linked.2, (List.cons.inj hnumbered).2⟩

theorem Chained.seq_eq {prev : PyStr} {first : ℕ} {r : Record I} {rs : List (Record I)}
    (h : Chained I prev first (r :: rs)) : r.seq = first := by
  have hnumbered := h.numbered
  rw [List.map_cons, List.length_cons, List.range'_succ] at hnumbered
  exact (List.cons.inj hnumbered).1

/-- A chained record more keeps the chain. -/
theorem Chained.append_singleton {prev : PyStr} {rs : List (Record I)} {r : Record I}
    (h : Chained I prev 1 rs) (hprev : r.prev = HashChain.head Record.hash prev rs)
    (hseq : r.seq = rs.length + 1) : Chained I prev 1 (rs ++ [r]) := by
  refine ⟨(HashChain.linked_append_singleton _ _ _ _ _).mpr ⟨h.linked, hprev⟩, ?_⟩
  rw [List.map_append, h.numbered, List.map_singleton, hseq, List.length_append,
    List.length_singleton, List.range'_1_concat, Nat.add_comm 1]

/-- One chained record passes all four checks. -/
theorem verifyLines_record (hI : LoadsInvertsDumps I.loads) (r : Record I) (lines : List Bytes)
    (number : ℕ) (entries : Json F) :
    verifyLines I ((r.bytes ++ [10]) :: lines) number r.prev r.seq entries =
      verifyLines I lines (number + 1) r.hash (r.seq + 1) (.int r.seq) := by
  obtain ⟨u, hloads, hjson⟩ := r.loads hI (Or.inr rfl)
  have hseq : seqOf r.readBack = .int r.seq := by
    rw [seqOf, r.get_readBack, r.hasSeq]
    rfl
  have hprev : isStr (dictGet r.readBack keyPrev) r.prev = true := by
    rw [r.get_readBack, r.hasPrev]
    exact decide_eq_true rfl
  have hhash : isStr (dictGet r.readBack keyHash) r.hash = true := by
    rw [r.get_readBack, r.hasHash]
    exact decide_eq_true rfl
  have hnumber : eqInt (seqOf r.readBack) r.seq = true := by
    rw [hseq]
    exact decide_eq_true rfl
  have hcheck := checkEntry_of_passes ⟨hnumber, hprev, r.sealOf_readBack, hhash⟩ entries
  rw [verifyLines, r.blank_line]
  simp [hloads, hjson, hcheck, hseq]

/-- `verify` walks a chain to its end. -/
theorem verifyLines_chained (hI : LoadsInvertsDumps I.loads) {rs : List (Record I)} :
    ∀ {prev : PyStr} {first : ℕ} (number : ℕ), Chained I prev first rs →
      verifyLines I (rs.map fun r ↦ r.bytes ++ [10]) number prev first (.int (first - 1 : ℤ)) =
        .ok ⟨true, .int (first + rs.length - 1 : ℤ), HashChain.head Record.hash prev rs,
          none, .none⟩ := by
  induction rs with
  | nil =>
    intro prev first number _
    simp [verifyLines]
  | cons r rs ih =>
    intro prev first number h
    have hseq : r.seq = first := h.seq_eq
    have hprev : r.prev = prev := h.linked.1
    subst hseq hprev
    have hrest := ih (number + 1) h.tail
    have hcount : ((r.seq + 1 : ℕ) : ℤ) - 1 = r.seq := by omega
    rw [hcount] at hrest
    have hstep := verifyLines_record hI r (rs.map fun r ↦ r.bytes ++ [10]) number
      (.int (r.seq - 1 : ℤ))
    have hlength : ((r.seq + 1 : ℕ) : ℤ) + rs.length - 1 = r.seq + (r :: rs).length - 1 := by
      push_cast [List.length_cons]
      omega
    rw [List.map_cons, hstep, hrest, hlength, HashChain.head_cons]

/-! ## Files of records -/

theorem newline_notMem_of_mem {rs : List (Record I)} {b : Bytes} (hb : b ∈ rs.map Record.bytes) :
    (10 : UInt8) ∉ b := by
  obtain ⟨r, -, rfl⟩ := List.mem_map.mp hb
  exact r.newline_notMem

theorem pieces_records (rs : List (Record I)) :
    pieces (wholeLines (rs.map Record.bytes)) = rs.map Record.bytes := by
  refine pieces_wholeLines (fun b hb ↦ newline_notMem_of_mem hb) fun b hb ↦ ?_
  obtain ⟨r, -, rfl⟩ := List.mem_map.mp hb
  exact r.blank_bytes

theorem fileLines_records (rs : List (Record I)) :
    fileLines (wholeLines (rs.map Record.bytes)) = rs.map fun r ↦ r.bytes ++ [10] := by
  rw [fileLines_wholeLines fun b hb ↦ newline_notMem_of_mem hb, List.map_map]
  rfl

/-- The entries of a file of records are the records' own. -/
theorem parses_of_content (hI : LoadsInvertsDumps I.loads) {file : File} {rs : List (Record I)}
    (h : file.getD [] = wholeLines (rs.map Record.bytes)) :
    Parses I file (rs.map Record.readBack) := by
  rw [Parses, entryLines, h, fileLines_records, List.filter_map, List.map_map, List.map_map]
  have hall : rs.filter ((fun l ↦ !blank l) ∘ fun r ↦ r.bytes ++ [10]) = rs :=
    List.filter_eq_self.mpr fun r _ ↦ by simp [r.blank_line]
  rw [hall]
  refine List.map_congr_left fun r _ ↦ ?_
  obtain ⟨u, hloads, hjson⟩ := r.loads hI (Or.inr rfl)
  exact parseLine_of_loads hloads hjson

theorem lastLine_records {file : File} {rs : List (Record I)}
    (h : file.getD [] = wholeLines (rs.map Record.bytes)) :
    lastLine file = (rs.getLast?.map Record.bytes).getD [] := by
  cases file with
  | none =>
    have hpieces := pieces_records rs
    rw [← h] at hpieces
    have hnil : rs.map Record.bytes = [] := hpieces.symm
    rw [List.map_eq_nil_iff] at hnil
    rw [hnil]
    rfl
  | some content =>
    have hcontent : content = wholeLines (rs.map Record.bytes) := h
    rw [lastLine_eq, hcontent, pieces_records, List.getLast?_map]

/-- The number of the last record; 0 before the first. -/
def lastSeq (rs : List (Record I)) : ℕ := (rs.getLast?.map Record.seq).getD 0

theorem lastSeq_append_singleton (rs : List (Record I)) (r : Record I) :
    lastSeq (rs ++ [r]) = r.seq := by
  simp [lastSeq]

theorem Chained.lastSeq_eq {rs : List (Record I)} (h : Chained I GENESIS 1 rs) :
    lastSeq rs = rs.length := by
  induction rs using List.reverseRecOn with
  | nil => rfl
  | append_singleton rs r _ =>
    have hnumbered := h.numbered
    rw [List.map_append, List.length_append, List.length_singleton, List.range'_1_concat] at hnumbered
    have hlast := (List.append_inj' hnumbered rfl).2
    rw [lastSeq_append_singleton, List.length_append, List.length_singleton]
    simpa [Nat.add_comm 1] using hlast

/-- `_load_head` reads the number and the hash of the last record. -/
theorem readHead_records (hI : LoadsInvertsDumps I.loads) {file : File} {rs : List (Record I)}
    (h : file.getD [] = wholeLines (rs.map Record.bytes)) :
    readHead I file = .ok ((lastSeq rs : ℤ), HashChain.head Record.hash GENESIS rs) := by
  rw [readHead, lastLine_records h]
  induction rs using List.reverseRecOn with
  | nil => rfl
  | append_singleton rs r _ =>
    obtain ⟨u, hloads, hjson⟩ := r.loads hI (Or.inl rfl)
    obtain ⟨rest, hbytes⟩ := r.bytes_opens
    rw [List.append_nil] at hloads
    have hitemSeq : getItem u.json keySeq = .ok (.int r.seq) := by
      rw [hjson, getItem, r.get_readBack, r.hasSeq]
      rfl
    have hitemHash : getItem u.json keyHash = .ok (.str r.hash) := by
      rw [hjson, getItem, r.get_readBack, r.hasHash]
      rfl
    have hlast : ((rs ++ [r]).getLast?.map Record.bytes).getD [] = 123 :: rest := by
      simpa using hbytes
    rw [hbytes] at hloads
    rw [hlast]
    simp only [hloads, hitemSeq, hitemHash, bind, Except.bind, pure, Except.pure, toInt, toStr,
      lastSeq_append_singleton, HashChain.head_append_singleton]

/-! ## New records -/

section Draft

variable (seq : ℤ) (head : PyStr) (now : F) (context : Fields F) (action : PyStr) (fields : Fields F)

omit [PyFloat F] in
theorem draftEntry_wf : (Json.obj (draftEntry seq head now context action fields)).wf = true := by
  have hbase : (Json.obj [(keySeq, .int (seq + 1)), (keyAt, (.float now : Json F)),
      (keyAction, .str action)]).wf = true := by
    rw [wf_obj_iff]
    refine ⟨by simp only [List.map_cons, List.map_nil]; decide, ?_⟩
    simp [Json.wf]
  have hcontext := wf_dictUpdate hbase (e := context.pairs.filter fun p ↦ inContext p.2)
    fun p hp ↦ context.values p (List.mem_of_mem_filter hp)
  have hfields := wf_dictUpdate hcontext (e := fields.pairs.filter fun p ↦ inFields p.2)
    fun p hp ↦ fields.values p (List.mem_of_mem_filter hp)
  exact wf_dictSet hfields keyPrev rfl

omit [PyFloat F] in
theorem Fields.seq_notMem_filter (fields : Fields F) (keep : PyStr × Json F → Bool) :
    keySeq ∉ dictKeys (fields.pairs.filter keep) :=
  fun hmem ↦ fields.noSeq ((List.filter_sublist.map Prod.fst).subset hmem)

omit [PyFloat F] in
/-- Neither the context nor the fields replace the number. -/
theorem draftEntry_seq :
    dictGet (draftEntry seq head now context action fields) keySeq = some (.int (seq + 1)) := by
  rw [draftEntry, dictGet_dictSet_of_ne _ _ (by decide),
    dictGet_dictUpdate_of_notMem _ (fields.seq_notMem_filter _),
    dictGet_dictUpdate_of_notMem _ (context.seq_notMem_filter _), dictGet_cons, if_pos rfl]

omit [PyFloat F] in
theorem draftEntry_prev :
    dictGet (draftEntry seq head now context action fields) keyPrev = some (.str head) :=
  dictGet_dictSet_self _ _ _

end Draft

theorem encodeUtf8_of_canonical {e : Entry F} {b : Bytes} (h : canonical e = .ok b) :
    encodeUtf8 (dumps (.obj e)) = some b := by
  rw [canonical] at h
  cases hencode : encodeUtf8 (dumps (.obj e)) with
  | none => simp [hencode] at h
  | some c =>
    rw [hencode, Except.ok.injEq] at h
    rw [h]

variable (I) in
/-- The record `append` writes, once its hash and its line are computed. -/
def newRecord (seq : ℕ) (head : PyStr) (now : F) (context : Fields F) (action : PyStr)
    (fields : Fields F) (hash : PyStr) (bytes : Bytes)
    (hhash : sealOf I (draftEntry seq head now context action fields) = .ok hash)
    (hbytes : canonical (dictSet (draftEntry seq head now context action fields) keyHash (.str hash)) =
      .ok bytes) : Record I where
  entry := dictSet (draftEntry seq head now context action fields) keyHash (.str hash)
  seq := seq + 1
  prev := head
  hash := hash
  bytes := bytes
  wf := wf_dictSet (draftEntry_wf _ _ _ _ _ _) keyHash rfl
  hasSeq := by
    rw [dictGet_dictSet_of_ne _ _ (by decide), draftEntry_seq]
    rfl
  hasPrev := by
    rw [dictGet_dictSet_of_ne _ _ (by decide), draftEntry_prev]
  hasHash := dictGet_dictSet_self _ _ _
  isSealed := by
    rw [sealOf, dictErase_dictSet]
    exact hhash
  encoded := encodeUtf8_of_canonical hbytes

end

end FourCE.Audit

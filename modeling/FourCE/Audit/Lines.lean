import FourCE.Audit.Trail

/-!
# Lines of the trail's file

What the two ways of cutting the file into lines agree on: `verify` iterates over the file,
`_last_line` splits it at newlines, block by block from its end.
-/

namespace FourCE.Audit

open FourCE.Python

/-! ## Pieces -/

theorem splitNewline_ne_nil (b : Bytes) : splitNewline b ≠ [] := by
  cases b with
  | nil => simp [splitNewline]
  | cons c b =>
    rw [splitNewline]
    split_ifs
    · simp
    · cases splitNewline b <;> simp

/-- A prefix changes at most the first piece and puts pieces before it. -/
theorem splitNewline_append (p d : Bytes) {q : Bytes} {qs : List Bytes}
    (h : splitNewline d = q :: qs) :
    ∃ front q', splitNewline (p ++ d) = front ++ q' :: qs := by
  induction p with
  | nil => exact ⟨[], q, h⟩
  | cons c p ih =>
    obtain ⟨front, q', hq⟩ := ih
    rw [List.cons_append, splitNewline, hq]
    by_cases hc : c = 10
    · exact ⟨[] :: front, q', by rw [if_pos hc, List.cons_append]⟩
    · rw [if_neg hc]
      cases front with
      | nil => exact ⟨[], c :: q', rfl⟩
      | cons f front => exact ⟨(c :: f) :: front, q', rfl⟩

/-- Once a suffix shows two nonblank lines, its last one is the file's last one. -/
theorem getLast?_pieces_append (p d : Bytes) (h : 1 < (pieces d).length) :
    (pieces (p ++ d)).getLast? = (pieces d).getLast? := by
  obtain ⟨q, qs, hd⟩ := List.exists_cons_of_ne_nil (splitNewline_ne_nil d)
  obtain ⟨front, q', hp⟩ := splitNewline_append p d hd
  have htail : qs.filter (fun line ↦ !blank line) ≠ [] := by
    intro hnil
    rw [pieces, hd, List.filter_cons, hnil] at h
    split_ifs at h <;> simp at h
  have hlast (front : List Bytes) : ((front ++ qs).filter fun line ↦ !blank line).getLast? =
      (qs.filter fun line ↦ !blank line).getLast? := by
    rw [List.filter_append, List.getLast?_append_of_ne_nil _ htail]
  have hsnoc (front : List Bytes) (q : Bytes) : front ++ q :: qs = (front ++ [q]) ++ qs := by simp
  rw [pieces, pieces, hp, hd, hsnoc, hlast]
  exact (hlast [q]).symm

/-! ## The last line -/

/-- The loop needs no more turns than bytes: each takes at least one byte off `stop`. -/
theorem lastLineLoop_eq (content : Bytes) {fuel stop : ℕ} (hfuel : stop < fuel)
    (hstop : stop ≤ content.length) (hpos : 0 < stop) :
    lastLineLoop content fuel stop (content.drop stop) = (pieces content).getLast?.getD [] := by
  induction fuel generalizing stop with
  | zero => omega
  | succ fuel ih =>
    have hdata : block content stop ++ content.drop stop = content.drop (stop - 4096) := by
      rw [block]
      conv_rhs => rw [← List.take_append_drop stop content]
      rw [List.drop_append_of_le_length (by simp; omega)]
    rw [lastLineLoop, if_neg hpos.ne', hdata]
    split_ifs with hfound
    · rcases hfound with hlong | hzero
      · have hsuffix := getLast?_pieces_append (content.take (stop - 4096))
          (content.drop (stop - 4096)) hlong
        rw [List.take_append_drop] at hsuffix
        rw [hsuffix]
      · rw [hzero]
        rfl
    · exact ih (by omega) (by omega) (by omega)

/-- `_last_line` is the last nonblank line of the file, wherever the block borders fall. -/
theorem lastLine_eq (content : Bytes) :
    lastLine (some content) = (pieces content).getLast?.getD [] := by
  rcases Nat.eq_zero_or_pos content.length with hzero | hpos
  · rw [List.length_eq_zero_iff] at hzero
    subst hzero
    rfl
  · have hloop := lastLineLoop_eq content (Nat.lt_succ_self content.length) le_rfl hpos
    rwa [List.drop_length] at hloop

/-- The pieces with a newline before each but the first are the bytes, and none has one of its own. -/
theorem splitNewline_join (b : Bytes) : ∃ q qs, splitNewline b = q :: qs ∧
    b = q ++ qs.flatMap (10 :: ·) ∧ ∀ line ∈ q :: qs, (10 : UInt8) ∉ line := by
  induction b with
  | nil => exact ⟨[], [], rfl, rfl, by simp⟩
  | cons c b ih =>
    obtain ⟨q, qs, hsplit, hjoin, hfree⟩ := ih
    rw [splitNewline, hsplit]
    by_cases hc : c = 10
    · refine ⟨[], q :: qs, by rw [if_pos hc], ?_, ?_⟩
      · rw [hc, hjoin]
        rfl
      · exact List.forall_mem_cons.mpr ⟨List.not_mem_nil, hfree⟩
    · refine ⟨c :: q, qs, by rw [if_neg hc], ?_, ?_⟩
      · rw [hjoin]
        rfl
      · obtain ⟨hq, hqs⟩ := List.forall_mem_cons.mp hfree
        refine List.forall_mem_cons.mpr ⟨fun hmem ↦ ?_, hqs⟩
        rcases List.mem_cons.mp hmem with heq | hmem
        · exact hc heq.symm
        · exact hq hmem

theorem blank_append (b d : Bytes) : blank (b ++ d) = (blank b && blank d) := List.all_append

theorem blank_flatMap {qs : List Bytes} (h : ∀ line ∈ qs, blank line = true) :
    blank (qs.flatMap (10 :: ·)) = true := by
  induction qs with
  | nil => rfl
  | cons q qs ih =>
    obtain ⟨hq, hqs⟩ := List.forall_mem_cons.mp h
    rw [List.flatMap_cons, blank_append, ih hqs, Bool.and_true]
    exact hq

/-- A line of a file between others. -/
structure StandsIn (content front line back : Bytes) : Prop where
  parts : content = front ++ line ++ back
  noNewline : (10 : UInt8) ∉ line
  before : front = [] ∨ ∃ b, front = b ++ [10]
  after : back = [] ∨ ∃ b, back = 10 :: b

/-- Each piece stands in the file between those before and those after it. -/
theorem standsIn_of_split {content line : Bytes} {ls rs : List Bytes}
    (h : splitNewline content = ls ++ line :: rs) :
    StandsIn content (ls.flatMap (· ++ [10])) line (rs.flatMap (10 :: ·)) := by
  obtain ⟨q, qs, hsplit, hjoin, hfree⟩ := splitNewline_join content
  have hline : (10 : UInt8) ∉ line := hfree line (by rw [← hsplit, h]; simp)
  have hshift (ls : List Bytes) (q : Bytes) :
      q ++ (ls ++ [line]).flatMap (10 :: ·) = (q :: ls).flatMap (· ++ [10]) ++ line := by
    induction ls generalizing q with
    | nil => simp
    | cons l ls ih =>
      have hnext := ih l
      rw [List.cons_append, List.flatMap_cons, List.flatMap_cons, List.cons_append, hnext]
      simp
  refine ⟨?_, hline, ?_, ?_⟩
  · rw [hsplit] at h
    rw [hjoin]
    cases ls with
    | nil =>
      obtain ⟨rfl, rfl⟩ := List.cons.inj h
      rfl
    | cons l ls =>
      obtain ⟨rfl, rfl⟩ := List.cons.inj h
      rw [← hshift ls q, List.append_assoc, ← List.flatMap_append, List.append_assoc]
      rfl
  · rcases List.eq_nil_or_concat' ls with rfl | ⟨front, last, rfl⟩
    · exact .inl rfl
    · right
      refine ⟨front.flatMap (· ++ [10]) ++ last, ?_⟩
      rw [List.flatMap_append, List.append_assoc]
      simp
  · cases rs with
    | nil => exact .inl rfl
    | cons r rs => exact .inr ⟨r ++ rs.flatMap (10 :: ·), rfl⟩

/-- `_last_line` returns the last line that is not blank, and nothing where all of the file is blank. -/
theorem lastLine_last (content : Bytes) :
    (blank content = true ∧ lastLine (some content) = []) ∨
    ∃ front back, StandsIn content front (lastLine (some content)) back ∧
      blank (lastLine (some content)) = false ∧ blank back = true := by
  rw [lastLine_eq]
  rcases List.eq_nil_or_concat' (pieces content) with hnone | ⟨init, line, hlast⟩
  · left
    rw [hnone]
    refine ⟨?_, rfl⟩
    obtain ⟨q, qs, hsplit, hjoin, -⟩ := splitNewline_join content
    have hall : ∀ l ∈ q :: qs, blank l = true := by
      intro l hl
      have hout := List.filter_eq_nil_iff.mp hnone l (hsplit ▸ hl)
      simpa using hout
    obtain ⟨hq, hqs⟩ := List.forall_mem_cons.mp hall
    rw [hjoin, blank_append, hq, blank_flatMap hqs]
    rfl
  · right
    rw [hlast, List.getLast?_concat, Option.getD_some]
    obtain ⟨ls, rs, hsplit, -, hrest⟩ := List.filter_eq_append_iff.mp hlast
    obtain ⟨gap, rs', hrs, hgap, hline, hend⟩ := List.filter_eq_cons_iff.mp hrest
    have hparts : splitNewline content = (ls ++ gap) ++ line :: rs' := by
      rw [hsplit, hrs, List.append_assoc]
    refine ⟨_, _, standsIn_of_split hparts, by simpa using hline, blank_flatMap fun l hl ↦ ?_⟩
    simpa using List.filter_eq_nil_iff.mp hend l hl

/-! ## Files of whole lines -/

theorem splitNewline_line (b rest : Bytes) (h : (10 : UInt8) ∉ b) :
    splitNewline (b ++ 10 :: rest) = b :: splitNewline rest := by
  induction b with
  | nil => rfl
  | cons c b ih =>
    simp only [List.mem_cons, not_or] at h
    rw [List.cons_append, splitNewline, if_neg (fun hc ↦ h.1 hc.symm), ih h.2]

theorem fileLines_line (b rest : Bytes) (h : (10 : UInt8) ∉ b) :
    fileLines (b ++ 10 :: rest) = (b ++ [10]) :: fileLines rest := by
  induction b with
  | nil => rfl
  | cons c b ih =>
    simp only [List.mem_cons, not_or] at h
    rw [List.cons_append, fileLines, if_neg (fun hc ↦ h.1 hc.symm), ih h.2]
    rfl

/-- The file holding these lines and nothing else. -/
def wholeLines (bs : List Bytes) : Bytes := bs.flatMap fun b ↦ b ++ [10]

theorem wholeLines_cons (b : Bytes) (bs : List Bytes) :
    wholeLines (b :: bs) = b ++ 10 :: wholeLines bs := by
  simp [wholeLines]

theorem wholeLines_append_singleton (bs : List Bytes) (b : Bytes) :
    wholeLines (bs ++ [b]) = wholeLines bs ++ (b ++ [10]) := by
  simp [wholeLines]

theorem fileLines_wholeLines_append {bs : List Bytes} (h : ∀ b ∈ bs, (10 : UInt8) ∉ b)
    (rest : Bytes) :
    fileLines (wholeLines bs ++ rest) = (bs.map fun b ↦ b ++ [10]) ++ fileLines rest := by
  induction bs with
  | nil => rfl
  | cons b bs ih =>
    rw [wholeLines_cons, List.append_assoc, List.cons_append,
      fileLines_line b _ (h b List.mem_cons_self),
      ih fun c hc ↦ h c (List.mem_cons_of_mem _ hc), List.map_cons, List.cons_append]

theorem fileLines_wholeLines {bs : List Bytes} (h : ∀ b ∈ bs, (10 : UInt8) ∉ b) :
    fileLines (wholeLines bs) = bs.map fun b ↦ b ++ [10] := by
  have happend := fileLines_wholeLines_append h []
  simpa [fileLines] using happend

theorem pieces_wholeLines_append {bs : List Bytes} (h : ∀ b ∈ bs, (10 : UInt8) ∉ b)
    (hblank : ∀ b ∈ bs, blank b = false) (rest : Bytes) :
    pieces (wholeLines bs ++ rest) = bs ++ pieces rest := by
  induction bs with
  | nil => rfl
  | cons b bs ih =>
    have htail := ih (fun c hc ↦ h c (List.mem_cons_of_mem _ hc))
      fun c hc ↦ hblank c (List.mem_cons_of_mem _ hc)
    rw [pieces, wholeLines_cons, List.append_assoc, List.cons_append,
      splitNewline_line b _ (h b List.mem_cons_self),
      List.filter_cons_of_pos (by simp [hblank b List.mem_cons_self])]
    exact congrArg (b :: ·) htail

theorem pieces_wholeLines {bs : List Bytes} (h : ∀ b ∈ bs, (10 : UInt8) ∉ b)
    (hblank : ∀ b ∈ bs, blank b = false) : pieces (wholeLines bs) = bs := by
  have happend := pieces_wholeLines_append h hblank []
  simpa [pieces, splitNewline, blank] using happend

end FourCE.Audit

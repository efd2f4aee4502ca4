import FourCE.Audit.Runs

/-!
# Several objects on one trail

Each `AuditTrail` remembers the number and the hash it last wrote, and reads them from the file only
before its first entry and after a failure.  Objects that append in turn therefore keep one chain
only as long as none comes back after another: its remembered head is then behind the file's.
-/

namespace FourCE.Audit

open FourCE.Python FourCE.Library

variable {ι : Type*} {F : Type}

/-! ## The system -/

/-- One append, by one of the objects. -/
structure WriterAppend (ι : Type*) (F : Type) where
  writer : ι
  now : F
  context : Fields F
  action : PyStr
  fields : Fields F

/-- The objects opened on one path, its file, and the entries returned so far. -/
structure Shared (ι : Type*) (F : Type) where
  objects : ι → AuditTrail
  file : File
  returned : List (Entry F)

def Shared.opened (file : File) : Shared ι F := ⟨fun _ ↦ .init, file, []⟩

/-- Once another object has appended, this one does not append again. -/
def Uninterrupted : List ι → Prop
  | [] => True
  | w :: ws => (w ∈ ws → ws.head? = some w) ∧ Uninterrupted ws

theorem uninterrupted_append_singleton (ws : List ι) (w : ι) :
    Uninterrupted (ws ++ [w]) ↔ Uninterrupted ws ∧ (w ∈ ws → ws.getLast? = some w) := by
  induction ws with
  | nil => simp [Uninterrupted]
  | cons v ws ih =>
    rw [List.cons_append, Uninterrupted, Uninterrupted, ih]
    cases ws with
    | nil =>
      simp only [Uninterrupted, List.nil_append, List.mem_singleton, List.head?_cons,
        List.getLast?_singleton]
      grind
    | cons u ws =>
      have hlast : (v :: u :: ws).getLast? = (u :: ws).getLast? := List.getLast?_cons_cons
      have hmem : (u :: ws).getLast? = some w → w ∈ u :: ws := List.mem_of_getLast?
      rw [hlast]
      simp only [List.cons_append, List.head?_cons]
      grind

section

variable [PyFloat F] (I : Interp F) [DecidableEq ι]

/-- An append that succeeds, as one step. -/
def Shared.append (s : Shared ι F) (a : WriterAppend ι F) : Option (Shared ι F) :=
  let done := (s.objects a.writer).append I s.file .written a.now a.context a.action a.fields
  done.entry.map fun entry ↦
    ⟨Function.update s.objects a.writer done.trail, done.file, s.returned ++ [entry]⟩

/-- Appends one after the other, all of which succeed. -/
def Shared.run (s : Shared ι F) (appends : List (WriterAppend ι F)) : Option (Shared ι F) :=
  appends.foldlM (Shared.append I) s

variable {I}

/-! ## One append -/

/-- The file holds these records, in step with each other or not, and no object remembers a negative
number. -/
structure Kept (s : Shared ι F) (rs : List (Record I)) : Prop where
  content : s.file.getD [] = wholeLines (rs.map Record.bytes)
  numbers : ∀ w seq, (s.objects w).seq = some seq → ∃ n : ℕ, seq = n

/-- The number and hash an object goes on from: what it remembers, else what the file ends in. -/
def basis (t : AuditTrail) (rs : List (Record I)) : ℤ × PyStr :=
  match t.seq with
  | some seq => (seq, t.head)
  | none => (lastSeq rs, HashChain.head Record.hash GENESIS rs)

/-- An append adds one record, which goes on from what its object knew. -/
structure Adds (s : Shared ι F) (w : ι) (rs : List (Record I)) (s' : Shared ι F) (r : Record I) :
    Prop where
  kept : Kept s' (rs ++ [r])
  returned : s'.returned = s.returned ++ [r.entry]
  follows : ((r.seq : ℤ), r.prev) = ((basis (s.objects w) rs).1 + 1, (basis (s.objects w) rs).2)
  writer : (s'.objects w).seq = some (r.seq : ℤ) ∧ (s'.objects w).head = r.hash
  others : ∀ v, v ≠ w → s'.objects v = s.objects v

theorem Kept.append (hI : LoadsInvertsDumps I.loads) {s s' : Shared ι F} {rs : List (Record I)}
    (h : Kept s rs) {a : WriterAppend ι F} (ha : s.append I a = some s') :
    ∃ r, Adds s a.writer rs s' r := by
  rw [Shared.append, Option.map_eq_some_iff] at ha
  obtain ⟨entry, hentry, rfl⟩ := ha
  cases hp : (s.objects a.writer).prepare I s.file a.now a.context a.action a.fields with
  | none =>
    obtain ⟨u, e, file', -, hdone⟩ := append_unprepared hp .written
    rw [hdone] at hentry
    exact absurd hentry (by simp)
  | some p =>
    have hbasis : (p.seq, p.trail.head) = basis (s.objects a.writer) rs ∧ ∃ n : ℕ, p.seq = n := by
      have hloaded := prepare_loaded hp
      rw [AuditTrail.loaded] at hloaded
      rw [basis]
      cases hseq : (s.objects a.writer).seq with
      | some seq =>
        simp only [hseq, Except.ok.injEq, Prod.mk.injEq] at hloaded
        obtain ⟨hu, rfl⟩ := hloaded
        exact ⟨by rw [hu], h.numbers _ _ hseq⟩
      | none =>
        simp only [hseq, readHead_records hI h.content, Except.map, Except.ok.injEq,
          Prod.mk.injEq] at hloaded
        obtain ⟨hu, hn⟩ := hloaded
        exact ⟨by rw [← hu, hn], _, hn.symm⟩
    obtain ⟨hbasis, n, hn⟩ := hbasis
    obtain ⟨r, hrentry, hbytes, hhash, hseq, hprev⟩ := prepare_record hp hn
    have hnumber : (r.seq : ℤ) = p.seq + 1 := by rw [hseq, hn]; rfl
    simp only [append_prepared hp, Option.some.injEq] at hentry ⊢
    refine ⟨r, ⟨?_, ?_⟩, ?_, ?_, ?_, ?_⟩
    · rw [List.map_append, List.map_singleton, wholeLines_append_singleton, hbytes, ← h.content]
      rfl
    · intro w seq hw
      dsimp only at hw
      by_cases hwriter : w = a.writer
      · subst hwriter
        rw [Function.update_self] at hw
        exact ⟨r.seq, (Option.some.inj hw).symm.trans hnumber.symm⟩
      · rw [Function.update_of_ne hwriter] at hw
        exact h.numbers w seq hw
    · rw [hrentry, hentry]
    · rw [← hbasis, hnumber, hprev]
    · dsimp only
      rw [Function.update_self, hnumber]
      exact ⟨rfl, hhash.symm⟩
    · intro v hv
      exact Function.update_of_ne hv _ _

/-! ## In step -/

/-- The file is a chain, the last writer knows its end, and every earlier one is behind. -/
structure InStep (s : Shared ι F) (rs : List (Record I)) (ws : List ι) : Prop where
  chained : Chained I GENESIS 1 rs
  fresh : ∀ w, w ∉ ws → (s.objects w).seq = none
  last : ∀ w, ws.getLast? = some w → (s.objects w).seq = some (rs.length : ℤ) ∧
    (s.objects w).head = HashChain.head Record.hash GENESIS rs
  behind : ∀ w, w ∈ ws → ws.getLast? ≠ some w →
    ∃ k : ℕ, (s.objects w).seq = some (k : ℤ) ∧ k < rs.length

/-- Some record stands where its number does not belong. -/
def OutOfStep (rs : List (Record I)) : Prop := ∃ k r, rs[k]? = some r ∧ r.seq ≠ k + 1

omit [DecidableEq ι] in
theorem OutOfStep.append {rs : List (Record I)} (h : OutOfStep rs) (more : List (Record I)) :
    OutOfStep (rs ++ more) := by
  obtain ⟨k, r, hr, hne⟩ := h
  have hlt : k < rs.length := (List.getElem?_eq_some_iff.mp hr).1
  exact ⟨k, r, by rwa [List.getElem?_append_left hlt], hne⟩

/-- A writer that is the last one, or new, keeps the chain. -/
theorem InStep.continues {s s' : Shared ι F} {rs : List (Record I)} {ws : List ι} {w : ι}
    {r : Record I} (h : InStep s rs ws) (hadds : Adds s w rs s' r)
    (hw : w ∈ ws → ws.getLast? = some w) : InStep s' (rs ++ [r]) (ws ++ [w]) := by
  have hbasis : basis (s.objects w) rs =
      ((rs.length : ℤ), HashChain.head Record.hash GENESIS rs) := by
    rw [basis]
    by_cases hmem : w ∈ ws
    · obtain ⟨hseq, hhead⟩ := h.last w (hw hmem)
      rw [hseq, hhead]
    · rw [h.fresh w hmem, h.chained.lastSeq_eq]
  have hfollows := hadds.follows
  rw [hbasis, Prod.mk.injEq] at hfollows
  have hnumber : (r.seq : ℤ) = rs.length + 1 := hfollows.1
  have hseq : r.seq = rs.length + 1 := by omega
  refine ⟨h.chained.append_singleton hfollows.2 hseq, fun v hv ↦ ?_, fun v hv ↦ ?_, fun v hv hne ↦ ?_⟩
  · simp only [List.mem_append, List.mem_singleton, not_or] at hv
    rw [hadds.others v hv.2]
    exact h.fresh v hv.1
  · rw [List.getLast?_concat, Option.some.injEq] at hv
    subst hv
    obtain ⟨hlive, hhead⟩ := hadds.writer
    rw [hlive, hhead, hseq, List.length_append, List.length_singleton,
      HashChain.head_append_singleton]
    exact ⟨rfl, rfl⟩
  · have hvw : v ≠ w := by
      rintro rfl
      exact hne List.getLast?_concat
    have hmem : v ∈ ws := by
      simp only [List.mem_append, List.mem_singleton] at hv
      exact hv.resolve_right hvw
    rw [hadds.others v hvw, List.length_append, List.length_singleton]
    by_cases hlast : ws.getLast? = some v
    · exact ⟨rs.length, (h.last v hlast).1, Nat.lt_succ_self _⟩
    · obtain ⟨k, hk, hlt⟩ := h.behind v hmem hlast
      exact ⟨k, hk, by omega⟩

omit [DecidableEq ι] in
/-- A writer that comes back writes a number that is taken. -/
theorem InStep.breaks {s s' : Shared ι F} {rs : List (Record I)} {ws : List ι} {w : ι}
    {r : Record I} (h : InStep s rs ws) (hadds : Adds s w rs s' r) (hmem : w ∈ ws)
    (hlast : ws.getLast? ≠ some w) : OutOfStep (rs ++ [r]) := by
  obtain ⟨k, hk, hlt⟩ := h.behind w hmem hlast
  have hfollows := hadds.follows
  rw [basis, hk, Prod.mk.injEq] at hfollows
  have hnumber : (r.seq : ℤ) = k + 1 := hfollows.1
  refine ⟨rs.length, r, by simp, ?_⟩
  omega

/-! ## Runs -/

/-- Where a run of appends stands: every entry is on file, and the chain holds exactly as long as no
writer came back. -/
theorem Shared.run_invariant (hI : LoadsInvertsDumps I.loads) {file : File} {rs : List (Record I)}
    (hfile : Holds I .init file rs) {appends : List (WriterAppend ι F)} {s : Shared ι F}
    (hrun : Shared.run I (.opened file) appends = some s) :
    ∃ more : List (Record I), Kept s (rs ++ more) ∧ s.returned = more.map Record.entry ∧
      ((Uninterrupted (appends.map WriterAppend.writer) ∧
          InStep s (rs ++ more) (appends.map WriterAppend.writer)) ∨
        (¬ Uninterrupted (appends.map WriterAppend.writer) ∧ OutOfStep (rs ++ more))) := by
  induction appends using List.reverseRecOn generalizing s with
  | nil =>
    obtain rfl := Option.some.inj hrun
    refine ⟨[], ⟨?_, ?_⟩, rfl, Or.inl ⟨trivial, ?_⟩⟩
    · rw [List.append_nil]
      exact hfile.content
    · intro w seq hw
      exact absurd hw (by simp [Shared.opened, AuditTrail.init])
    · rw [List.append_nil]
      exact ⟨hfile.chained, fun _ _ ↦ rfl, by simp, by simp⟩
  | append_singleton appends a ih =>
    rw [Shared.run, List.foldlM_append] at hrun
    obtain ⟨s₁, hs₁, hlast⟩ := Option.bind_eq_some_iff.mp hrun
    have ha : s₁.append I a = some s := by simpa using hlast
    obtain ⟨more, hkept, hreturned, hstate⟩ := ih hs₁
    obtain ⟨r, hadds⟩ := hkept.append hI ha
    refine ⟨more ++ [r], ?_, ?_, ?_⟩
    · rw [← List.append_assoc]
      exact hadds.kept
    · rw [hadds.returned, hreturned, List.map_append, List.map_singleton]
    · rw [List.map_append, List.map_singleton, uninterrupted_append_singleton, ← List.append_assoc]
      rcases hstate with ⟨hgood, hstep⟩ | ⟨hbad, hout⟩
      · by_cases hw : a.writer ∈ appends.map WriterAppend.writer →
            (appends.map WriterAppend.writer).getLast? = some a.writer
        · exact Or.inl ⟨⟨hgood, hw⟩, hstep.continues hadds hw⟩
        · rw [Classical.not_imp] at hw
          exact Or.inr ⟨fun h ↦ hw.2 (h.2 hw.1), hstep.breaks hadds hw.1 hw.2⟩
      · exact Or.inr ⟨fun h ↦ hbad h.1, hout.append [r]⟩

/-! ## What `verify` makes of it -/

/-- An entry as `json.loads` reads it back from its line. -/
def asRead (entry : Entry F) : Entry F := (sortMembers entry).insertionSort keyLe

/-- A file with a record out of step is not accepted. -/
theorem OutOfStep.not_accepted (hI : LoadsInvertsDumps I.loads) {file : File} {rs : List (Record I)}
    (h : OutOfStep rs) (hfile : file.getD [] = wholeLines (rs.map Record.bytes))
    {v : VerifyResult F} (hv : verify I file = .ok v) : v.ok = false := by
  by_contra hok
  rw [Bool.not_eq_false] at hok
  obtain ⟨k, r, hr, hne⟩ := h
  obtain ⟨es, hes, hacc⟩ := accepted_of_verify hv hok
  obtain rfl := parses_unique hes (parses_of_content hI hfile)
  have hget : (rs.map Record.readBack)[k]? = some r.readBack := by rw [List.getElem?_map, hr]; rfl
  obtain ⟨hash, hpass⟩ := hacc.getElem? hget
  have hseq : seqOf r.readBack = .int r.seq := by
    rw [seqOf, r.get_readBack, r.hasSeq]
    rfl
  have hnumber := hpass.seq
  rw [hseq] at hnumber
  have heq : (r.seq : ℤ) = (1 + k : ℕ) := of_decide_eq_true hnumber
  omega

/-- Every entry of every writer is on file once and in order, and `verify` accepts the file, exactly
when no writer appends again after another one has. -/
theorem writers_accepted_iff (hI : LoadsInvertsDumps I.loads) {file : File} {rs : List (Record I)}
    (hfile : Holds I .init file rs) {appends : List (WriterAppend ι F)} {s : Shared ι F}
    (hrun : Shared.run I (.opened file) appends = some s) :
    (Parses I s.file (rs.map Record.readBack ++ s.returned.map asRead) ∧
      ∃ v, verify I s.file = .ok v ∧ v.ok = true) ↔
    Uninterrupted (appends.map WriterAppend.writer) := by
  obtain ⟨more, hkept, hreturned, hstate⟩ := Shared.run_invariant hI hfile hrun
  constructor
  · rintro ⟨-, v, hv, hok⟩
    rcases hstate with ⟨hgood, -⟩ | ⟨-, hout⟩
    · exact hgood
    · exact absurd (hok.symm.trans (hout.not_accepted hI hkept.content hv)) (by simp)
  · intro hgood
    rcases hstate with ⟨-, hstep⟩ | ⟨hbad, -⟩
    · have hholds : Holds I .init s.file (rs ++ more) :=
        ⟨hkept.content, hstep.chained, fun _ hseq ↦ absurd hseq (by simp [AuditTrail.init])⟩
      refine ⟨?_, _, (hholds.consistent hI).verified, rfl⟩
      have hparses := hholds.parses hI
      rw [List.map_append] at hparses
      rw [hreturned, List.map_map]
      exact hparses
    · exact absurd hgood hbad

end

/-! ## Two writers -/

def writerAppend (writer : Bool) : WriterAppend Bool FloatLit :=
  ⟨writer, .nan, noFields, py "request", noFields⟩

theorem writers_accepted_in_blocks :
    ∃ s : Shared Bool FloatLit, Shared.run sampleInterp (.opened none)
      [writerAppend true, writerAppend true, writerAppend false] = some s ∧
      ∃ v, verify sampleInterp s.file = .ok v ∧ v.ok = true := by
  have hsome : (Shared.run sampleInterp (.opened none)
      [writerAppend true, writerAppend true, writerAppend false]).isSome = true := by decide +kernel
  obtain ⟨s, hs⟩ := Option.isSome_iff_exists.mp hsome
  exact ⟨s, hs, ((writers_accepted_iff loadsInvertsDumps_loadsBytes (holds_init (Or.inl rfl)) hs).mpr
    (by simp [writerAppend, Uninterrupted])).2⟩

/-- The first writer comes back after the second. -/
theorem returning_writer_breaks_chain :
    ¬ ∀ (appends : List (WriterAppend Bool FloatLit)) (s : Shared Bool FloatLit),
      Shared.run sampleInterp (.opened none) appends = some s →
        ∃ v, verify sampleInterp s.file = .ok v ∧ v.ok = true := by
  intro hclaim
  have hrefused : ((Shared.run sampleInterp (.opened none)
      [writerAppend true, writerAppend false, writerAppend true]).map fun s ↦
        match verify sampleInterp s.file with
        | .ok v => v.ok
        | .error _ => false) = some false := by decide +kernel
  obtain ⟨s, hs, hfalse⟩ := Option.map_eq_some_iff.mp hrefused
  obtain ⟨v, hv, hok⟩ := hclaim _ s hs
  simp [hv, hok] at hfalse

end FourCE.Audit

import FourCE.Audit.Interpreter
import FourCE.Audit.Steps

/-!
# Runs of the audit trail

Whatever sequence of appends, failed writes, `status` calls and reopenings a trail goes through,
its file holds whole records, chained and numbered from 1, and an object that remembers a head
remembers the file's own.
-/

namespace FourCE.Audit

open FourCE.Python FourCE.Library

section

variable {F : Type} [PyFloat F] (I : Interp F)

variable {I}

/-! ## The invariant -/

variable (I) in
/-- The file holds exactly these records, and an object that remembers a head remembers theirs. -/
structure Holds (t : AuditTrail) (file : File) (rs : List (Record I)) : Prop where
  content : file.getD [] = wholeLines (rs.map Record.bytes)
  chained : Chained I GENESIS 1 rs
  live : ∀ seq, t.seq = some seq →
    seq = rs.length ∧ t.head = HashChain.head Record.hash GENESIS rs

theorem Holds.parses (hI : LoadsInvertsDumps I.loads) {t : AuditTrail} {file : File}
    {rs : List (Record I)} (h : Holds I t file rs) : Parses I file (rs.map Record.readBack) :=
  parses_of_content hI h.content

theorem loaded_records (hI : LoadsInvertsDumps I.loads) {t : AuditTrail} {file : File}
    {rs : List (Record I)} (h : Holds I t file rs) :
    ∃ u, t.loaded I file = .ok (u, (rs.length : ℤ)) ∧ u.seq = some (rs.length : ℤ) ∧
      u.head = HashChain.head Record.hash GENESIS rs := by
  cases hseq : t.seq with
  | none =>
    rw [AuditTrail.loaded, hseq, readHead_records hI h.content, h.chained.lastSeq_eq]
    exact ⟨_, rfl, rfl, rfl⟩
  | some seq =>
    obtain ⟨rfl, hhead⟩ := h.live seq hseq
    rw [AuditTrail.loaded, hseq]
    exact ⟨t, rfl, hseq, hhead⟩

/-! ## Appending -/

/-- The write left whole lines behind: all of its own, or nothing. -/
def WriteOutcome.whole : WriteOutcome → Bool
  | .cut persisted _ => persisted = 0
  | .written | .notOpened _ | .unsynced _ => true

/-- A failed append forgets the head, so only the file counts. -/
theorem Holds.failed {t : AuditTrail} {file file' : File} {rs : List (Record I)}
    (h : Holds I t file rs) (hfile : file'.getD [] = file.getD []) (u : AuditTrail) (e : PyError) :
    Holds I (u.failed e) file' rs :=
  ⟨hfile.trans h.content, h.chained, fun _ hseq ↦ absurd hseq (by simp [AuditTrail.failed])⟩

section Append

variable {t : AuditTrail} {file : File} {rs : List (Record I)} {now : F} {context fields : Fields F}
  {action : PyStr}

/-- The entry an object is about to write is the next record of its file. -/
theorem Holds.prepared (hI : LoadsInvertsDumps I.loads) (h : Holds I t file rs) {p : Prepared F}
    (hp : t.prepare I file now context action fields = some p) :
    ∃ r : Record I, r.entry = p.entry ∧ r.bytes = p.bytes ∧ r.hash = p.hash ∧
      p.seq = rs.length ∧ Chained I GENESIS 1 (rs ++ [r]) := by
  obtain ⟨u, hloaded, -, hhead⟩ := loaded_records hI h
  have hsame := (prepare_loaded hp).symm.trans hloaded
  rw [Except.ok.injEq, Prod.mk.injEq] at hsame
  obtain ⟨r, hentry, hbytes, hhash, hseq, hprev⟩ := prepare_record hp hsame.2
  rw [hsame.1, hhead] at hprev
  exact ⟨r, hentry, hbytes, hhash, hsame.2, h.chained.append_singleton hprev hseq⟩

theorem Holds.content_append (h : Holds I t file rs) (r : Record I) :
    file.getD [] ++ (r.bytes ++ [10]) = wholeLines ((rs ++ [r]).map Record.bytes) := by
  rw [h.content, List.map_append, List.map_singleton, wholeLines_append_singleton]

/-- `append` keeps the invariant, writes at most one record, and returns only what it wrote. -/
theorem Holds.append (hI : LoadsInvertsDumps I.loads) (h : Holds I t file rs)
    {outcome : WriteOutcome} (houtcome : outcome.whole = true) :
    ∃ more, Holds I (t.append I file outcome now context action fields).trail
        (t.append I file outcome now context action fields).file (rs ++ more) ∧
      (t.append I file outcome now context action fields).entry.toList.Sublist
        (more.map Record.entry) := by
  cases hp : t.prepare I file now context action fields with
  | none =>
    obtain ⟨u, e, file', hfile, hdone⟩ := append_unprepared hp outcome
    rw [hdone]
    refine ⟨[], ?_, List.nil_sublist _⟩
    rw [List.append_nil]
    exact h.failed hfile u e
  | some p =>
    obtain ⟨r, hentry, hbytes, hhash, hseq, hchained⟩ := h.prepared hI hp
    have hcontent := h.content_append r
    rw [hbytes] at hcontent
    rw [append_prepared hp]
    cases outcome with
    | notOpened e =>
      refine ⟨[], ?_, List.nil_sublist _⟩
      rw [List.append_nil]
      exact h.failed rfl _ e
    | cut n e =>
      have hn : n = 0 := of_decide_eq_true houtcome
      subst hn
      refine ⟨[], ?_, List.nil_sublist _⟩
      rw [List.append_nil]
      exact h.failed (by simp) _ e
    | unsynced e =>
      -- the line is on disk, whether or not `fsync` confirmed it
      refine ⟨[r], ⟨hcontent, hchained, fun _ hlive ↦ ?_⟩, List.nil_sublist _⟩
      exact absurd hlive (by simp [AuditTrail.failed])
    | written =>
      refine ⟨[r], ⟨hcontent, hchained, fun seq hlive ↦ ?_⟩, ?_⟩
      · rw [HashChain.head_append_singleton, List.length_append, List.length_singleton, hhash]
        refine ⟨?_, rfl⟩
        rw [← Option.some.inj hlive, hseq]
        rfl
      · rw [List.map_singleton, hentry]
        exact List.Sublist.refl _

end Append

/-- `status` at most remembers the head the file has. -/
theorem Holds.status (hI : LoadsInvertsDumps I.loads) {t : AuditTrail} {file : File}
    {rs : List (Record I)} (h : Holds I t file rs) : Holds I (t.status I file).2 file rs := by
  obtain ⟨u, hloaded, hseq, hhead⟩ := loaded_records hI h
  rw [AuditTrail.status, hloaded]
  refine ⟨h.content, h.chained, fun seq hlive ↦ ⟨?_, hhead⟩⟩
  rw [hseq, Option.some.injEq] at hlive
  exact hlive.symm

/-! ## Runs -/

end

/-- What can happen to a trail: an append, a look at its status, or a new object on its path. -/
inductive Op (F : Type)
  | append (outcome : WriteOutcome) (now : F) (context : Fields F) (action : PyStr)
    (fields : Fields F)
  | status
  | reopen

/-- No append of the operation leaves part of a line behind. -/
def Op.whole {F : Type} : Op F → Bool
  | .append outcome _ _ _ _ => outcome.whole
  | .status | .reopen => true

structure State where
  trail : AuditTrail
  file : File

section

variable {F : Type} [PyFloat F] (I : Interp F)

def step (s : State) : Op F → State
  | .append outcome now context action fields =>
    let done := s.trail.append I s.file outcome now context action fields
    ⟨done.trail, done.file⟩
  | .status => ⟨(s.trail.status I s.file).2, s.file⟩
  | .reopen => ⟨.init, s.file⟩

def run (s : State) (ops : List (Op F)) : State := ops.foldl (step I) s

/-- What the operation returns to its caller, if that is an entry. -/
def entryOf (s : State) : Op F → Option (Entry F)
  | .append outcome now context action fields =>
    (s.trail.append I s.file outcome now context action fields).entry
  | .status | .reopen => none

/-- The entries the appends of a run return. -/
def returned (s : State) : List (Op F) → List (Entry F)
  | [] => []
  | op :: ops => (entryOf I s op).toList ++ returned (step I s op) ops

variable {I}

theorem run_append (s : State) (ops more : List (Op F)) :
    run I s (ops ++ more) = run I (run I s ops) more := List.foldl_append

theorem returned_append (s : State) (ops more : List (Op F)) :
    returned I s (ops ++ more) = returned I s ops ++ returned I (run I s ops) more := by
  induction ops generalizing s with
  | nil => rfl
  | cons op ops ih =>
    rw [List.cons_append, returned, returned, ih, List.append_assoc]
    rfl

theorem Holds.step (hI : LoadsInvertsDumps I.loads) {s : State} {rs : List (Record I)}
    (h : Holds I s.trail s.file rs) {op : Op F} (hop : op.whole = true) :
    ∃ more, Holds I (step I s op).trail (step I s op).file (rs ++ more) ∧
      (entryOf I s op).toList.Sublist (more.map Record.entry) := by
  cases op with
  | append outcome now context action fields => exact h.append hI hop
  | status =>
    refine ⟨[], ?_, List.nil_sublist _⟩
    rw [List.append_nil]
    exact h.status hI
  | reopen =>
    refine ⟨[], ?_, List.nil_sublist _⟩
    rw [List.append_nil]
    exact ⟨h.content, h.chained, fun _ hseq ↦ absurd hseq (by simp [Audit.step, AuditTrail.init])⟩

theorem Holds.run (hI : LoadsInvertsDumps I.loads) {s : State} {rs : List (Record I)}
    (h : Holds I s.trail s.file rs) {ops : List (Op F)} (hops : ∀ op ∈ ops, op.whole = true) :
    ∃ more, Holds I (run I s ops).trail (run I s ops).file (rs ++ more) ∧
      (returned I s ops).Sublist (more.map Record.entry) := by
  induction ops generalizing s rs with
  | nil => exact ⟨[], by rwa [List.append_nil], List.nil_sublist _⟩
  | cons op ops ih =>
    obtain ⟨first, hfirst, hentry⟩ := h.step hI (hops op List.mem_cons_self)
    obtain ⟨more, hmore, hreturned⟩ := ih hfirst fun op hop ↦ hops op (List.mem_cons_of_mem _ hop)
    rw [List.append_assoc] at hmore
    refine ⟨first ++ more, hmore, ?_⟩
    rw [List.map_append]
    exact hentry.append hreturned

/-! ## What the file shows -/

variable (I) in
/-- A field of the entry on a line. -/
def lineField (line : Bytes) (key : PyStr) : Option (Json F) :=
  match I.loads line with
  | .ok v => match v.json with
    | .obj d => dictGet d key
    | _ => none
  | .error _ => none

variable (I) in
/-- `verify` accepts the file with this head, its lines are numbered from 1, and a live object
agrees with the last of them. -/
structure Consistent (t : AuditTrail) (file : File) (head : PyStr) : Prop where
  verified : verify I file =
    .ok ⟨true, .int (fileLines (file.getD [])).length, head, none, .none⟩
  numbered : ∀ (k : ℕ) (line : Bytes), (fileLines (file.getD []))[k]? = some line →
    lineField I line keySeq = some (.int (k + 1))
  headOfLast : ∀ line, (fileLines (file.getD [])).getLast? = some line →
    lineField I line keyHash = some (.str head)
  headOfEmpty : fileLines (file.getD []) = [] → head = GENESIS
  live : ∀ seq, t.seq = some seq → seq = (fileLines (file.getD [])).length ∧ t.head = head

theorem Record.lineField_eq (hI : LoadsInvertsDumps I.loads) (r : Record I) (key : PyStr) :
    lineField I (r.bytes ++ [10]) key = (dictGet r.entry key).map Json.sortKeys := by
  obtain ⟨u, hloads, hjson⟩ := r.loads hI (Or.inr rfl)
  simp only [lineField, hloads, hjson, r.get_readBack]

theorem Holds.consistent (hI : LoadsInvertsDumps I.loads) {t : AuditTrail} {file : File}
    {rs : List (Record I)} (h : Holds I t file rs) :
    Consistent I t file (HashChain.head Record.hash GENESIS rs) := by
  have hlines : fileLines (file.getD []) = rs.map fun r ↦ r.bytes ++ [10] := by
    rw [h.content, fileLines_records]
  have hcount : (fileLines (file.getD [])).length = rs.length := by
    rw [hlines, List.length_map]
  refine ⟨?_, ?_, ?_, ?_, ?_⟩
  · have hwalk := verifyLines_chained hI 1 h.chained
    have hone : ((1 : ℕ) : ℤ) + rs.length - 1 = rs.length := by omega
    rw [hone, ← hlines] at hwalk
    rw [hcount, ← hwalk]
    cases file with
    | none => rfl
    | some content => rfl
  · intro k line hline
    rw [hlines, List.getElem?_map, Option.map_eq_some_iff] at hline
    obtain ⟨r, hr, rfl⟩ := hline
    have hseq : r.seq = k + 1 := by
      have hk : (rs.map Record.seq)[k]? = some r.seq := by rw [List.getElem?_map, hr]; rfl
      rw [h.chained.numbered, List.getElem?_eq_some_iff] at hk
      obtain ⟨hlt, hval⟩ := hk
      rw [List.getElem_range'] at hval
      omega
    rw [r.lineField_eq hI, r.hasSeq, hseq]
    rfl
  · intro line hline
    rw [hlines, List.getLast?_map, Option.map_eq_some_iff] at hline
    obtain ⟨r, hr, rfl⟩ := hline
    obtain ⟨front, hfront⟩ := List.getLast?_eq_some_iff.mp hr
    rw [r.lineField_eq hI, r.hasHash, hfront, HashChain.head_append_singleton]
    rfl
  · intro hnil
    rw [hlines, List.map_eq_nil_iff] at hnil
    rw [hnil, HashChain.head_nil]
  · intro seq hseq
    rw [hcount]
    exact h.live seq hseq

theorem holds_init {file : File} (hfile : file = none ∨ file = some []) :
    Holds I AuditTrail.init file [] := by
  refine ⟨?_, ⟨trivial, rfl⟩, fun _ hseq ↦ absurd hseq (by simp [AuditTrail.init])⟩
  rcases hfile with rfl | rfl <;> rfl

/-- Every run of whole appends, status calls and reopenings from an absent or empty file leaves a
trail that verifies and that a live object agrees with. -/
theorem run_consistent (hI : LoadsInvertsDumps I.loads) {file : File}
    (hfile : file = none ∨ file = some []) {ops : List (Op F)}
    (hops : ∀ op ∈ ops, op.whole = true) :
    ∃ head, Consistent I (run I ⟨.init, file⟩ ops).trail (run I ⟨.init, file⟩ ops).file head := by
  obtain ⟨rs, h, -⟩ := Holds.run hI (s := ⟨.init, file⟩) (holds_init hfile) hops
  exact ⟨_, h.consistent hI⟩

end

/-! ## A run -/

def noFields : Fields FloatLit := ⟨[], List.nodup_nil, by simp, by simp⟩

def sampleFields : Fields FloatLit where
  pairs := [(py "model", .str (py "m1")), (py "hash", .null), (py "n", .int 3)]
  unique := by decide
  values := by simp [Json.wf]
  noSeq := by decide

/-- Two appends reach the disk, one of them without its `fsync`; two fail before it. -/
def sampleOps : List (Op FloatLit) :=
  [.append (.notOpened (.osError (py "read-only"))) .nan noFields (py "model_call") sampleFields,
    .append .written .nan noFields (py "model_call") sampleFields,
    .status,
    .append (.unsynced (.osError (py "no space"))) .nan noFields (py "release") noFields,
    .append (.cut 0 (.osError (py "no space"))) .nan noFields (py "release") noFields,
    .reopen]

theorem run_consistent_sample :
    ∃ head, Consistent sampleInterp (run sampleInterp ⟨.init, none⟩ sampleOps).trail
      (run sampleInterp ⟨.init, none⟩ sampleOps).file head :=
  run_consistent loadsInvertsDumps_loadsBytes (Or.inl rfl) (by decide)

example : (fileLines ((run sampleInterp ⟨.init, none⟩ sampleOps).file.getD [])).length = 2 := by
  decide +kernel

end FourCE.Audit

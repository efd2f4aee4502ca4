import FourCE.Audit.Checks
import FourCE.Audit.Runs
import FourCE.Library.HashChain

/-!
# Tampering with the audit trail

`verify` on a file whose lines all parse to JSON objects: what an accepted file commits to, and
which edits of its entries are reported.  An edit is seen as a second file with other entries; the
hash is injective on the bytes sealed in the two files and never the genesis string.
-/

namespace FourCE.Audit

open FourCE.Python FourCE.Library

section

variable {F : Type} [PyFloat F] (I : Interp F)

variable {I}

theorem Accepted.linked {es : List (Entry F)} {prev : PyStr} {expected : ℕ}
    (h : Accepted I prev expected es) :
    HashChain.Linked (strAt keyPrev) (strAt keyHash) prev es := by
  induction es generalizing prev expected with
  | nil => trivial
  | cons d ds ih =>
    obtain ⟨hash, hpass, hrest⟩ := h
    refine ⟨strAt_of_isStr hpass.prev, ?_⟩
    rw [strAt_of_isStr hpass.hash]
    exact ih hrest

theorem Accepted.sealed {es : List (Entry F)} {prev : PyStr} {expected : ℕ}
    (h : Accepted I prev expected es) :
    ∀ d ∈ es, sealOf I d = .ok (strAt keyHash d) ∧ isStr (dictGet d keyHash) (strAt keyHash d) = true := by
  induction es generalizing prev expected with
  | nil => simp
  | cons d ds ih =>
    obtain ⟨hash, hpass, hrest⟩ := h
    intro e he
    rcases List.mem_cons.mp he with rfl | he
    · rw [strAt_of_isStr hpass.hash]
      exact ⟨hpass.isSealed, hpass.hash⟩
    · exact ih hrest e he

/-- The walk over accepted entries ends in their head, whatever follows. -/
theorem Accepted.walk {es : List (Entry F)} {prev : PyStr} {expected : ℕ}
    (h : Accepted I prev expected es) (ds : List (Entry F)) (entries : Json F) :
    ∃ entries', verifyEntries I (es ++ ds) prev expected entries =
      verifyEntries I ds (HashChain.head (strAt keyHash) prev es) (expected + es.length) entries' := by
  induction es generalizing prev expected entries with
  | nil => exact ⟨entries, rfl⟩
  | cons d es ih =>
    obtain ⟨hash, hpass, hrest⟩ := h
    obtain ⟨entries', hwalk⟩ := ih hrest (seqOf d)
    refine ⟨entries', ?_⟩
    rw [List.cons_append, hpass.verifyEntries, hwalk, HashChain.head_cons,
      strAt_of_isStr hpass.hash, List.length_cons, Nat.add_right_comm, Nat.add_assoc]

/-! ## The head pins the entries -/

variable (I) in
/-- The byte strings that entries of the file are hashed as. -/
def sealedBytes (file : File) : Set Bytes :=
  {b | ∃ line ∈ entryLines file, ∃ d, parseLine I line = some d ∧
    canonical (dictErase d keyHash) = .ok b}

variable (I) in
/-- No two of these byte strings share a hash, and none has the genesis string for one. -/
structure CollisionFree (S : Set Bytes) : Prop where
  inj : Set.InjOn (hexdigest I) S
  notGenesis : ∀ b ∈ S, hexdigest I b ≠ GENESIS

theorem mem_sealedBytes {file : File} {es : List (Entry F)} (h : Parses I file es) {d : Entry F}
    (hd : d ∈ es) {b : Bytes} (hb : canonical (dictErase d keyHash) = .ok b) :
    b ∈ sealedBytes I file := by
  have hmem : some d ∈ (entryLines file).map (parseLine I) := by
    rw [show (entryLines file).map (parseLine I) = es.map some from h]
    exact List.mem_map_of_mem hd
  obtain ⟨line, hline, hparse⟩ := List.mem_map.mp hmem
  exact ⟨line, hline, d, hparse, hb⟩

/-- One canonical text, one content. -/
theorem same_of_canonical_eq {d e : Entry F} (hd : (Json.obj d).wf = true)
    (he : (Json.obj e).wf = true) {b : Bytes} (hb : canonical d = .ok b)
    (hc : canonical e = .ok b) : (Json.obj d).Same (.obj e) := by
  have htext {c : Entry F} (h : canonical c = .ok b) : decodeUtf8 b = some (dumps (.obj c)) := by
    rw [canonical] at h
    cases hencode : encodeUtf8 (dumps (.obj c)) with
    | none => exact absurd h (by simp [hencode])
    | some a =>
      rw [hencode] at h
      rw [← Except.ok.inj h, decodeUtf8_encodeUtf8 hencode]
  exact same_of_dumps_eq hd he (Option.some.inj ((htext hb).symm.trans (htext hc)))

/-- Two sealed entries with one hash are the same entry. -/
theorem same_of_seal_eq {S : Set Bytes} (hfree : CollisionFree I S) {d e : Entry F}
    (hd : (Json.obj d).wf = true) (he : (Json.obj e).wf = true)
    (hdS : ∀ b, canonical (dictErase d keyHash) = .ok b → b ∈ S)
    (heS : ∀ b, canonical (dictErase e keyHash) = .ok b → b ∈ S) {hash : PyStr}
    (hds : sealOf I d = .ok hash) (hes : sealOf I e = .ok hash)
    (hdh : isStr (dictGet d keyHash) hash = true) (heh : isStr (dictGet e keyHash) hash = true) :
    (Json.obj d).Same (.obj e) := by
  obtain ⟨b, hb, hbhash⟩ := canonical_of_sealOf hds
  obtain ⟨c, hc, hchash⟩ := canonical_of_sealOf hes
  have hbc : b = c := hfree.inj (hdS b hb) (heS c hc) (hbhash.trans hchash.symm)
  subst hbc
  refine same_of_dictErase hd he ((eq_of_isStr hdh).trans (eq_of_isStr heh).symm) ?_
  exact same_of_canonical_eq (wf_dictErase hd keyHash) (wf_dictErase he keyHash) hb hc

omit [PyFloat F] in
/-- The string under a key survives any reordering of the entry. -/
theorem strAt_eq_match (key : PyStr) (c : Entry F) : strAt key c =
    match (dictGet c key).map Json.sortKeys with
    | some (.str s) => s
    | _ => [] := by
  rw [strAt]
  cases dictGet c key with
  | none => rfl
  | some v => cases v <;> rfl

theorem strAt_of_same {d e : Entry F} (hd : (Json.obj d).wf = true) (he : (Json.obj e).wf = true)
    (h : (Json.obj d).Same (.obj e)) (key : PyStr) : strAt key d = strAt key e := by
  have hget := (same_obj_iff ((wf_obj_iff d).mp hd).1 ((wf_obj_iff e).mp he).1).mp h key
  rw [strAt_eq_match key d, strAt_eq_match key e, hget]

/-- Accepted trails with one head hold the same entries. -/
theorem map_sortKeys_eq_of_head_eq {S : Set Bytes} (hfree : CollisionFree I S) {F' G : File}
    {es fs : List (Entry F)} (hF : Parses I F' es) (hG : Parses I G fs)
    (hFS : sealedBytes I F' ⊆ S) (hGS : sealedBytes I G ⊆ S)
    (hes : Accepted I GENESIS 1 es) (hfs : Accepted I GENESIS 1 fs)
    (hhead : HashChain.head (strAt keyHash) GENESIS es =
      HashChain.head (strAt keyHash) GENESIS fs) :
    es.map (fun d ↦ (Json.obj d).sortKeys) = fs.map (fun d ↦ (Json.obj d).sortKeys) := by
  refine HashChain.map_eq_of_head_eq (strAt keyPrev) (strAt keyHash) _ ?_ ?_ hes.linked hfs.linked hhead
  · intro d hd e he hdigest
    obtain ⟨hds, hdh⟩ := hes.sealed d hd
    obtain ⟨hseal, heh⟩ := hfs.sealed e he
    rw [← hdigest] at hseal heh
    have hsame := same_of_seal_eq hfree (hF.wf d hd) (hG.wf e he)
      (fun b hb ↦ hFS (mem_sealedBytes hF hd hb)) (fun b hb ↦ hGS (mem_sealedBytes hG he hb))
      hds hseal hdh heh
    exact ⟨hsame, strAt_of_same (hF.wf d hd) (hG.wf e he) hsame keyPrev⟩
  · have hne {file : File} {cs : List (Entry F)} (hparse : Parses I file cs)
        (hsub : sealedBytes I file ⊆ S) (hacc : Accepted I GENESIS 1 cs) :
        ∀ d ∈ cs, strAt keyHash d ≠ GENESIS := by
      intro d hd
      obtain ⟨b, hb, hbhash⟩ := canonical_of_sealOf (hacc.sealed d hd).1
      rw [← hbhash]
      exact hfree.notGenesis b (hsub (mem_sealedBytes hparse hd hb))
    intro d hd
    rcases List.mem_append.mp hd with hd | hd
    · exact hne hF hFS hes d hd
    · exact hne hG hGS hfs d hd

/-! ## Reports -/

/-- The walk ended with a report that names one of these positions. -/
def ReportedAt (r : Except PyError (VerifyResult F)) (numbers : List ℕ) : Prop :=
  ∃ v b, r = .ok v ∧ v.ok = false ∧ v.brokenAt = some b ∧ ∃ n ∈ numbers, eqInt b n = true

theorem reportedAt_report {entries b : Json F} {prev : PyStr} {reason : Reason F} {n : ℕ}
    {numbers : List ℕ} (hn : n ∈ numbers) (hb : eqInt b n = true) :
    ReportedAt (.ok ⟨false, entries, prev, some b, reason⟩) numbers :=
  ⟨_, b, rfl, rfl, rfl, n, hn, hb⟩

theorem eqInt_unique {v : Json F} {m n : ℤ} (hm : eqInt v m = true) (hn : eqInt v n = true) :
    m = n := by
  cases v with
  | int i => exact (of_decide_eq_true hm).symm.trans (of_decide_eq_true hn)
  | bool b => exact (of_decide_eq_true hm).symm.trans (of_decide_eq_true hn)
  | float x => exact PyFloat.eqInt_unique x m n hm hn
  | null => exact absurd hm (by simp [eqInt])
  | str s => exact absurd hm (by simp [eqInt])
  | arr xs => exact absurd hm (by simp [eqInt])
  | obj d => exact absurd hm (by simp [eqInt])

/-- An entry whose number is not the expected one is reported under the expected number. -/
theorem reportedAt_of_seq {d : Entry F} {ds : List (Entry F)} {prev : PyStr} {expected : ℕ}
    {entries : Json F} {numbers : List ℕ} (hmem : expected ∈ numbers)
    (hseq : eqInt (seqOf d) expected = false) :
    ReportedAt (verifyEntries I (d :: ds) prev expected entries) numbers := by
  rcases checkEntry_cases (I := I) d prev expected entries with
    ⟨hash, hpass⟩ | ⟨-, reason, hcheck⟩ | ⟨htrue, -⟩ | ⟨htrue, -⟩
  · exact absurd (hseq.symm.trans hpass.seq) (by simp)
  · rw [verifyEntries, hcheck]
    exact reportedAt_report hmem (decide_eq_true rfl)
  · exact absurd (hseq.symm.trans htrue) (by simp)
  · exact absurd (hseq.symm.trans htrue) (by simp)

/-- An entry that does not follow the one before it is reported under its number. -/
theorem reportedAt_of_prev {d : Entry F} {ds : List (Entry F)} {prev : PyStr} {expected : ℕ}
    {entries : Json F} {numbers : List ℕ} (hmem : expected ∈ numbers)
    (hprev : isStr (dictGet d keyPrev) prev = false) :
    ReportedAt (verifyEntries I (d :: ds) prev expected entries) numbers := by
  rcases checkEntry_cases (I := I) d prev expected entries with
    ⟨hash, hpass⟩ | ⟨-, reason, hcheck⟩ | ⟨hseq, -, reason, hcheck⟩ | ⟨-, htrue, -⟩
  · exact absurd (hprev.symm.trans hpass.prev) (by simp)
  · rw [verifyEntries, hcheck]
    exact reportedAt_report hmem (decide_eq_true rfl)
  · rw [verifyEntries, hcheck]
    exact reportedAt_report hmem hseq
  · exact absurd (hprev.symm.trans htrue) (by simp)

/-- No key or string of the entry, its hash apart, holds a lone surrogate. -/
def Hashable (d : Entry F) : Prop := (Json.obj (dictErase d keyHash)).allStrings scalar = true

theorem hashable_iff (d : Entry F) : Hashable d ↔ ∃ hash, sealOf I d = .ok hash := by
  rw [Hashable, ← encodeUtf8_dumps_isSome, sealOf, canonical]
  cases encodeUtf8 (dumps (Json.obj (dictErase d keyHash))) with
  | none => simp [Except.map]
  | some b => simp [Except.map]

/-! ## Edits -/

variable (I) in
/-- An accepted trail with entry `e` after `pre`: what leads up to it, and where it stands. -/
structure Around (es pre : List (Entry F)) (e : Entry F) (post : List (Entry F)) : Prop where
  split : es = pre ++ e :: post
  before : Accepted I GENESIS 1 pre
  passes : Passes I (HashChain.head (strAt keyHash) GENESIS pre) (pre.length + 1) e (strAt keyHash e)
  after : Accepted I (strAt keyHash e) (pre.length + 2) post

theorem Accepted.around {es pre : List (Entry F)} {e : Entry F} {post : List (Entry F)}
    (h : Accepted I GENESIS 1 es) (hes : es = pre ++ e :: post) : Around I es pre e post := by
  subst hes
  obtain ⟨hpre, hash, hpass, hpost⟩ := accepted_append.mp h
  rw [Nat.add_comm 1] at hpass hpost
  have hhash := strAt_of_isStr hpass.hash
  rw [← hhash] at hpass hpost
  exact ⟨rfl, hpre, hpass, hpost⟩

/-- What `verify` makes of a file that goes on differently after `pre`. -/
theorem Around.verify_eq {es pre post : List (Entry F)} {e : Entry F} (h : Around I es pre e post)
    {G : File} {ds : List (Entry F)} (hG : Parses I G (pre ++ ds)) :
    ∃ entries, verify I G = verifyEntries I ds (HashChain.head (strAt keyHash) GENESIS pre)
      (pre.length + 1) entries := by
  obtain ⟨entries, hwalk⟩ := h.before.walk ds (.int 0)
  rw [Nat.add_comm 1] at hwalk
  exact ⟨entries, (Audit.verify_eq hG).trans hwalk⟩

/-- A replaced entry is reported, at its place or the next, unless the walk reaches its hash and
cannot take it. -/
theorem Around.replaced {es pre post : List (Entry F)} {e e' : Entry F} (h : Around I es pre e post)
    {F' G : File} (hF : Parses I F' es) (hG : Parses I G (pre ++ e' :: post))
    (hfree : CollisionFree I (sealedBytes I F' ∪ sealedBytes I G)) (hpost : post ≠ [])
    (hne : ¬ (Json.obj e).Same (.obj e')) :
    ReportedAt (verify I G) [pre.length + 1, pre.length + 2] ↔
      Hashable e' ∨ eqInt (seqOf e') (pre.length + 1 : ℕ) = false ∨
        isStr (dictGet e' keyPrev) (HashChain.head (strAt keyHash) GENESIS pre) = false := by
  obtain ⟨entries, hverify⟩ := h.verify_eq hG
  rw [hverify]
  rcases checkEntry_cases (I := I) e' (HashChain.head (strAt keyHash) GENESIS pre) (pre.length + 1)
    entries with ⟨hash, hpass⟩ | ⟨hseq, -⟩ | ⟨hseq, hwhy, reason, hcheck⟩ | ⟨hseq, hprev, e, hseal, hcheck⟩
  · -- the replacement is sealed itself, so the next entry links past it
    obtain ⟨d, ds, rfl⟩ := List.exists_cons_of_ne_nil hpost
    obtain ⟨dhash, hd, -⟩ := h.after
    have hmemF : e ∈ es := by rw [h.split]; simp
    have hne' : hash ≠ strAt keyHash e := by
      intro heq
      subst heq
      exact hne (same_of_seal_eq hfree (hF.wf e hmemF) (hG.wf e' (by simp))
        (fun b hb ↦ Or.inl (mem_sealedBytes hF hmemF hb))
        (fun b hb ↦ Or.inr (mem_sealedBytes hG (by simp) hb))
        h.passes.isSealed hpass.isSealed h.passes.hash hpass.hash)
    have hprev : isStr (dictGet d keyPrev) hash = false := by
      rw [eq_of_isStr hd.prev]
      exact decide_eq_false fun heq ↦ hne' heq.symm
    rw [hpass.verifyEntries]
    exact iff_of_true (reportedAt_of_prev (by simp) hprev)
      (Or.inl ((hashable_iff e').mpr ⟨hash, hpass.isSealed⟩))
  · exact iff_of_true (reportedAt_of_seq (by simp) hseq) (Or.inr (Or.inl hseq))
  · refine iff_of_true ?_ ?_
    · rw [verifyEntries, hcheck]
      exact reportedAt_report List.mem_cons_self hseq
    · rcases hwhy with hprev | hhash
      · exact Or.inr (Or.inr hprev)
      · exact Or.inl ((hashable_iff e').mpr hhash)
  · refine iff_of_false ?_ ?_
    · rw [verifyEntries, hcheck]
      rintro ⟨v, b, hv, -⟩
      exact absurd hv (by simp)
    · rintro (hhash | hfalse | hfalse)
      · obtain ⟨hash, hok⟩ := (hashable_iff e').mp hhash
        exact absurd (hok.symm.trans hseal) (by simp)
      · exact absurd (hseq.symm.trans hfalse) (by simp)
      · exact absurd (hprev.symm.trans hfalse) (by simp)

/-- An entry that stood further back is reported under the number expected here. -/
theorem reportedAt_of_later {n k : ℕ} {d : Entry F} {ds : List (Entry F)} {prev : PyStr}
    {entries : Json F} (hd : eqInt (seqOf d) (n + k : ℕ) = true) (hk : 0 < k) :
    ReportedAt (verifyEntries I (d :: ds) prev n entries) [n] := by
  refine reportedAt_of_seq (by simp) ?_
  cases hn : eqInt (seqOf d) n with
  | false => rfl
  | true =>
    have heq := eqInt_unique hd hn
    omega

theorem Around.deleted {es pre post : List (Entry F)} {e : Entry F} (h : Around I es pre e post)
    {G : File} (hG : Parses I G (pre ++ post)) (hpost : post ≠ []) :
    ReportedAt (verify I G) [pre.length + 1] := by
  obtain ⟨entries, hverify⟩ := h.verify_eq hG
  obtain ⟨d, ds, rfl⟩ := List.exists_cons_of_ne_nil hpost
  obtain ⟨dhash, hd, -⟩ := h.after
  rw [hverify]
  exact reportedAt_of_later (k := 1) hd.seq Nat.one_pos

theorem Around.swapped {es pre mid post : List (Entry F)} {e f : Entry F}
    (h : Around I es pre e (mid ++ f :: post)) {G : File}
    (hG : Parses I G (pre ++ f :: mid ++ e :: post)) :
    ReportedAt (verify I G) [pre.length + 1] := by
  rw [List.append_assoc] at hG
  obtain ⟨entries, hverify⟩ := h.verify_eq hG
  obtain ⟨-, hash, hf, -⟩ := accepted_append.mp h.after
  rw [hverify]
  refine reportedAt_of_later (k := mid.length + 1) ?_ (Nat.succ_pos _)
  have hcount : pre.length + 1 + (mid.length + 1) = pre.length + 2 + mid.length := by omega
  rw [hcount]
  exact hf.seq

/-! ## What the head commits to -/

variable (I) in
/-- Accepted with one head, the two files hold the same entries, whatever the order of keys. -/
def HeadPins (A B : File) : Prop :=
  ∀ r s, verify I A = .ok r → r.ok = true → verify I B = .ok s → s.ok = true → r.head = s.head →
    ∃ es fs, Parses I A es ∧ Parses I B fs ∧
      es.map (fun d ↦ (Json.obj d).sortKeys) = fs.map (fun d ↦ (Json.obj d).sortKeys)

theorem head_of_verify {file : File} {es : List (Entry F)} {r : VerifyResult F}
    (h : verify I file = .ok r) (hes : Parses I file es) (hacc : Accepted I GENESIS 1 es) :
    r.head = HashChain.head (strAt keyHash) GENESIS es := by
  obtain ⟨entries, hwalk⟩ := hacc.walk [] (.int 0)
  rw [verify_eq hes] at h
  rw [List.append_nil, h, verifyEntries, Except.ok.injEq] at hwalk
  rw [hwalk]

theorem headPins {A B : File} (hfree : CollisionFree I (sealedBytes I A ∪ sealedBytes I B)) :
    HeadPins I A B := by
  intro r s hA hrok hB hsok hhead
  obtain ⟨es, hes, hesacc⟩ := accepted_of_verify hA hrok
  obtain ⟨fs, hfs, hfsacc⟩ := accepted_of_verify hB hsok
  rw [head_of_verify hA hes hesacc, head_of_verify hB hfs hfsacc] at hhead
  exact ⟨es, fs, hes, hfs, map_sortKeys_eq_of_head_eq hfree hes hfs Set.subset_union_left
    Set.subset_union_right hesacc hfsacc hhead⟩

/-- The head pins the trail, and of the edits of an accepted trail before its end, deletions and
swaps are always reported where they begin; a replacement is reported exactly when its hash can be
taken or an earlier check has failed. -/
theorem head_pins_trail {A B : File}
    (hfree : CollisionFree I (sealedBytes I A ∪ sealedBytes I B)) :
    HeadPins I A B ∧
    ∀ pre e post r, Parses I A (pre ++ e :: post) → verify I A = .ok r → r.ok = true → post ≠ [] →
      (∀ e', Parses I B (pre ++ e' :: post) → ¬ (Json.obj e).Same (.obj e') →
        (ReportedAt (verify I B) [pre.length + 1, pre.length + 2] ↔
          Hashable e' ∨ eqInt (seqOf e') (pre.length + 1 : ℕ) = false ∨
            isStr (dictGet e' keyPrev) (HashChain.head (strAt keyHash) GENESIS pre) = false)) ∧
      (Parses I B (pre ++ post) → ReportedAt (verify I B) [pre.length + 1]) ∧
      (∀ mid f rest, post = mid ++ f :: rest → Parses I B (pre ++ f :: mid ++ e :: rest) →
        ReportedAt (verify I B) [pre.length + 1]) := by
  refine ⟨headPins hfree, ?_⟩
  intro pre e post r hA hverify hok hpost
  obtain ⟨es, hes, hacc⟩ := accepted_of_verify hverify hok
  have haround : Around I es pre e post := hacc.around (parses_unique hes hA)
  refine ⟨fun e' hB hne ↦ haround.replaced hes hB hfree hpost hne,
    fun hB ↦ haround.deleted hB hpost, ?_⟩
  rintro mid f rest rfl hB
  exact haround.swapped hB

end

/-! ## A trail and its edits -/

def sampleTrail : File :=
  (run sampleInterp ⟨.init, none⟩ [.append .written .nan noFields (py "request") noFields,
    .append .written .nan noFields (py "release") noFields]).file

def sampleLines : List Bytes := fileLines (sampleTrail.getD [])

/-- The trail without its first entry. -/
def shortenedTrail : File := some sampleLines.tail.flatten

/-- An object with the first entry's number and link, and a lone surrogate in a string. -/
def surrogateLine : Bytes :=
  (encodeUtf8 (py "\x7b\"seq\":1,\"prev\":\"" ++ GENESIS ++ py "\",\"x\":\"\\ud800\"\x7d\n")).getD []

/-- The trail with its first entry replaced by that object. -/
def surrogateTrail : File := some (surrogateLine ++ sampleLines.tail.flatten)

theorem collisionFree_sample (S : Set Bytes) : CollisionFree sampleInterp S :=
  ⟨hexdigest_sample_injective.injOn, fun b _ ↦ hexdigest_sample_ne_genesis b⟩

theorem exists_two_of_isSome {α : Type} {l : List (Option α)}
    (h : l.map Option.isSome = [true, true]) : ∃ a b, l = [some a, some b] := by
  match l, h with
  | [some a, some b], _ => exact ⟨a, b, rfl⟩

theorem sampleTrail_accepted : ∃ r, verify sampleInterp sampleTrail = .ok r ∧ r.ok = true := by
  have hok : (match verify sampleInterp sampleTrail with
      | .ok r => r.ok
      | .error _ => false) = true := by decide +kernel
  cases hverify : verify sampleInterp sampleTrail with
  | ok r => exact ⟨r, rfl, by simpa [hverify] using hok⟩
  | error e => simp [hverify] at hok

theorem sampleTrail_parses : ∃ e d, Parses sampleInterp sampleTrail [e, d] := by
  obtain ⟨e, d, h⟩ := exists_two_of_isSome
    (l := (entryLines sampleTrail).map (parseLine sampleInterp)) (by decide +kernel)
  exact ⟨e, d, h⟩

theorem head_pins_trail_shortened : ReportedAt (verify sampleInterp shortenedTrail) [1] := by
  obtain ⟨e, d, hA⟩ := sampleTrail_parses
  obtain ⟨r, hverify, hok⟩ := sampleTrail_accepted
  have hlines : entryLines shortenedTrail = (entryLines sampleTrail).tail := by decide +kernel
  have hB : Parses sampleInterp shortenedTrail [d] := by
    rw [Parses, hlines, List.map_tail, show (entryLines sampleTrail).map _ = _ from hA]
    rfl
  exact ((head_pins_trail (collisionFree_sample _)).2 [] e [d] r hA hverify hok (by simp)).2.1 hB

/-- A replacement that `verify` does not report: it raises instead. -/
theorem surrogate_replacement_not_reported :
    ¬ ∀ (A B : File) (pre : List (Entry FloatLit)) (e e' : Entry FloatLit)
      (post : List (Entry FloatLit)) (r : VerifyResult FloatLit),
      CollisionFree sampleInterp (sealedBytes sampleInterp A ∪ sealedBytes sampleInterp B) →
      Parses sampleInterp A (pre ++ e :: post) → verify sampleInterp A = .ok r → r.ok = true →
      post ≠ [] → Parses sampleInterp B (pre ++ e' :: post) → ¬ (Json.obj e).Same (.obj e') →
      ReportedAt (verify sampleInterp B) [pre.length + 1, pre.length + 2] := by
  intro hclaim
  obtain ⟨e, d, hA⟩ := sampleTrail_parses
  obtain ⟨r, hverify, hok⟩ := sampleTrail_accepted
  obtain ⟨e', d', hB⟩ := exists_two_of_isSome
    (l := (entryLines surrogateTrail).map (parseLine sampleInterp)) (by decide +kernel)
  have htail : (entryLines surrogateTrail).tail = (entryLines sampleTrail).tail := by decide +kernel
  have hd : d' = d := by
    have hmap := congrArg (List.map (parseLine sampleInterp)) htail
    rw [List.map_tail, List.map_tail, hB, show (entryLines sampleTrail).map _ = _ from hA] at hmap
    simpa using hmap
  subst hd
  have hscalar : ((entryLines sampleTrail).map (parseLine sampleInterp)).map
      (Option.map fun d ↦ (Json.obj d).allStrings scalar) = [some true, some true] := by
    decide +kernel
  have hsurrogate : ((entryLines surrogateTrail).map (parseLine sampleInterp)).map
      (Option.map fun d ↦ (Json.obj d).allStrings scalar) = [some false, some true] := by
    decide +kernel
  rw [show (entryLines sampleTrail).map _ = _ from hA] at hscalar
  rw [hB] at hsurrogate
  have hne : ¬ (Json.obj e).Same (.obj e') := by
    intro hsame
    have hstrings := congrArg (Json.allStrings scalar) hsame
    rw [allStrings_sortKeys, allStrings_sortKeys] at hstrings
    simp_all
  have hraises : (match verify sampleInterp surrogateTrail with
      | .ok _ => false
      | .error _ => true) = true := by decide +kernel
  obtain ⟨v, b, hreport, -⟩ := hclaim sampleTrail surrogateTrail [] e e' [d'] r
    (collisionFree_sample _) hA hverify hok (by simp) hB hne
  simp [hreport] at hraises

end FourCE.Audit

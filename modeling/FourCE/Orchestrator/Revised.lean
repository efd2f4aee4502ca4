import FourCE.Orchestrator.Revision

/-!
# The record of a revision is complete

Every sentence of a changed stretch is in one change, or in a pair that differs in punctuation and case
alone.  The list of changes is cut at fourteen, those that objections point to first: none of these is
cut exactly when there are at most fourteen.
-/

namespace FourCE.Orchestrator

open FourCE.Python

/-- The removed sentence of a change, if it has one. -/
def DraftChange.removedUnit (x : DraftChange) : Option PyStr := if x.kind = .added then none else some x.removed

/-- The added sentence of a change, if it has one. -/
def DraftChange.addedUnit (x : DraftChange) : Option PyStr := if x.kind = .removed then none else some x.added

section

variable [Unicode] [Casing]

/-- Each removed and each added sentence is in one change, or in a pair of equals. -/
def Accounts (changes : List DraftChange) (removed added : List PyStr) : Prop :=
  ∃ equals : List (PyStr × PyStr), (∀ p ∈ equals, sameText p.1 p.2 = true) ∧
    (changes.filterMap DraftChange.removedUnit ++ equals.map Prod.fst).Perm removed ∧
      (changes.filterMap DraftChange.addedUnit ++ equals.map Prod.snd).Perm added

theorem accounts_nil : Accounts [] [] [] := ⟨[], nofun, .refl _, .refl _⟩

theorem perm_swap_middle {α : Type} (a b c d : List α) : (a ++ b ++ (c ++ d)).Perm (a ++ c ++ (b ++ d)) := by
  rw [List.append_assoc, List.append_assoc]
  apply List.Perm.append_left
  rw [← List.append_assoc, ← List.append_assoc]
  exact List.perm_append_comm.append_right d

theorem Accounts.append {xs ys : List DraftChange} {removed removed' added added' : List PyStr}
    (hxs : Accounts xs removed added) (hys : Accounts ys removed' added') :
    Accounts (xs ++ ys) (removed ++ removed') (added ++ added') := by
  obtain ⟨p, hp, hr, ha⟩ := hxs
  obtain ⟨q, hq, hr', ha'⟩ := hys
  refine ⟨p ++ q, fun e he ↦ (List.mem_append.mp he).elim (hp e) (hq e), ?_, ?_⟩
  · rw [List.filterMap_append, List.map_append]
    exact (perm_swap_middle _ _ _ _).trans (hr.append hr')
  · rw [List.filterMap_append, List.map_append]
    exact (perm_swap_middle _ _ _ _).trans (ha.append ha')

/-- A change with a removed sentence alone. -/
theorem accounts_removed (gone : PyStr) : Accounts [⟨gone, [], .removed⟩] [gone] [] :=
  ⟨[], nofun, .refl _, .refl _⟩

theorem accounts_reworded (gone new : PyStr) : Accounts [⟨gone, new, .reworded⟩] [gone] [new] :=
  ⟨[], nofun, .refl _, .refl _⟩

theorem accounts_equal {gone new : PyStr} (h : sameText gone new = true) : Accounts [] [gone] [new] := by
  refine ⟨[(gone, new)], ?_, .refl _, .refl _⟩
  intro p hp
  rw [List.mem_singleton.mp hp]
  exact h

theorem accounts_added (news : List PyStr) :
    Accounts (news.map fun new ↦ ⟨[], new, .added⟩) [] news := by
  refine ⟨[], nofun, ?_, ?_⟩
  · simp [List.filterMap_map, DraftChange.removedUnit, Function.comp_def]
  · simp [List.filterMap_map, DraftChange.addedUnit, Function.comp_def]

theorem Accounts.perm {xs : List DraftChange} {removed added added' : List PyStr} (h : Accounts xs removed added)
    (hadded : added.Perm added') : Accounts xs removed added' := by
  obtain ⟨p, hp, hr, ha⟩ := h
  exact ⟨p, hp, hr, ha.trans hadded⟩

/-! ## A changed stretch -/

variable (c : Comparing)

omit [Unicode] [Casing] in
/-- The best match is a sentence that has not been used. -/
theorem mostLike_unused {added : List PyStr} {used : List ℕ} {gone : PyStr} {k : ℕ}
    (h : (mostLike c added used gone).1 = some k) : k ∉ used ∧ k < added.length := by
  unfold mostLike at h
  have hkeep : ∀ (news : List (PyStr × ℕ)) (best : Option ℕ × Double),
      (∀ new ∈ news, new.2 < added.length) → (∀ k, best.1 = some k → k ∉ used ∧ k < added.length) →
        ∀ k, (news.foldl (fun best new ↦
          if new.2 ∈ used then best
          else if best.2.lt (c.ratio gone new.1) then (some new.2, c.ratio gone new.1) else best) best).1 =
            some k → k ∉ used ∧ k < added.length := by
    intro news
    induction news with
    | nil => exact fun best _ hbest ↦ hbest
    | cons new news ih =>
      intro best hnews hbest
      rw [List.foldl_cons]
      apply ih _ fun new hnew ↦ hnews new (List.mem_cons_of_mem _ hnew)
      intro k hk
      split_ifs at hk with hused hlt
      · exact hbest k hk
      · obtain rfl : new.2 = k := Option.some.inj hk
        exact ⟨hused, hnews new List.mem_cons_self⟩
      · exact hbest k hk
  refine hkeep added.zipIdx _ ?_ (fun k hk ↦ by cases hk) k h
  rintro ⟨x, i⟩ hx
  have hlt := List.snd_lt_of_mem_zipIdx hx
  simpa using hlt

/-- What a turn over the removed sentences keeps: the sentences it has been over and the added ones it has
used are accounted for. -/
structure PairedUp (added done : List PyStr) (s : List DraftChange × List ℕ) : Prop where
  nodup : s.2.Nodup
  used : ∀ k ∈ s.2, k < added.length
  accounts : Accounts s.1 done (s.2.map fun k ↦ added.getD k [])

variable {c}

theorem PairedUp.step {added done : List PyStr} {s : List DraftChange × List ℕ} (h : PairedUp added done s)
    (gone : PyStr) : PairedUp added (done ++ [gone]) (pairUp c added s gone) := by
  have hremoved : PairedUp added (done ++ [gone]) (s.1 ++ [⟨gone, [], .removed⟩], s.2) := by
    refine ⟨h.nodup, h.used, ?_⟩
    have hboth := h.accounts.append (accounts_removed gone)
    rwa [List.append_nil] at hboth
  unfold pairUp
  cases hbest : mostLike c added s.2 gone with
  | mk best score =>
    cases best with
    | none => exact hremoved
    | some k =>
      obtain ⟨hnew, hlt⟩ := mostLike_unused c (congrArg Prod.fst hbest)
      simp only
      by_cases hscore : (Double.ofRat (45 / 100)).le score = true
      · rw [if_pos hscore]
        have hnodup : (s.2 ++ [k]).Nodup := by
          rw [List.nodup_append_comm, List.singleton_append, List.nodup_cons]
          exact ⟨hnew, h.nodup⟩
        refine ⟨hnodup, fun i hi ↦ ?_, ?_⟩
        · rcases List.mem_append.mp hi with hi | hi
          · exact h.used i hi
          · rw [List.mem_singleton.mp hi]
            exact hlt
        · rw [List.map_append]
          by_cases hsame : sameText gone (added.getD k []) = true
          · have hboth := h.accounts.append (accounts_equal hsame)
            rw [List.append_nil] at hboth
            rwa [if_pos hsame]
          · rw [if_neg hsame]
            exact h.accounts.append (accounts_reworded gone _)
      · rw [if_neg hscore]
        exact hremoved

theorem PairedUp.run {added : List PyStr} (removed : List PyStr) {done : List PyStr}
    {s : List DraftChange × List ℕ} (h : PairedUp added done s) :
    PairedUp added (done ++ removed) (removed.foldl (pairUp c added) s) := by
  induction removed generalizing done s with
  | nil => rwa [List.append_nil]
  | cons gone removed ih =>
    rw [List.foldl_cons, List.append_cons]
    exact ih (h.step gone)

end

theorem zipIdx_eq_map_range (xs : List PyStr) :
    xs.zipIdx = (List.range xs.length).map fun k ↦ (xs.getD k [], k) := by
  apply List.ext_getElem
  · simp
  · intro k hk hk'
    simp at hk
    simp [hk]

/-- The places used and those left make up all. -/
theorem used_append_left {xs : List PyStr} {used : List ℕ} (hnodup : used.Nodup)
    (hused : ∀ k ∈ used, k < xs.length) :
    ((used.map fun k ↦ xs.getD k []) ++ (xs.zipIdx.filter fun new ↦ new.2 ∉ used).map Prod.fst).Perm xs := by
  have hplaces : (used ++ (List.range xs.length).filter (· ∉ used)).Perm (List.range xs.length) := by
    rw [List.perm_ext_iff_of_nodup ?_ List.nodup_range]
    · intro k
      simp only [List.mem_append, List.mem_filter, List.mem_range, decide_eq_true_eq]
      exact ⟨fun h ↦ h.elim (hused k) And.left, fun h ↦ or_iff_not_imp_left.mpr fun hno ↦ ⟨h, hno⟩⟩
    · refine List.nodup_append.mpr ⟨hnodup, List.nodup_range.filter _, ?_⟩
      rintro k hk j hj rfl
      have hout := (List.mem_filter.mp hj).2
      simp only [decide_eq_true_eq] at hout
      exact hout hk
  have hall : (List.range xs.length).map (fun k ↦ xs.getD k []) = xs := by
    have hfst := congrArg (List.map Prod.fst) (zipIdx_eq_map_range xs)
    rw [List.zipIdx_map_fst, List.map_map] at hfst
    exact hfst.symm
  have hmapped := hplaces.map fun k ↦ xs.getD k []
  rw [hall, List.map_append] at hmapped
  rw [zipIdx_eq_map_range, List.filter_map, List.map_map]
  exact hmapped

section

variable [Unicode] [Casing] {c : Comparing}

theorem accounts_stretchChanges (removed added : List PyStr) :
    Accounts (stretchChanges c removed added) removed added := by
  have hstart : PairedUp added [] ([], []) := ⟨List.nodup_nil, nofun, accounts_nil⟩
  have hend := hstart.run (c := c) removed
  have hleft := accounts_added ((added.zipIdx.filter fun new ↦
    new.2 ∉ (removed.foldl (pairUp c added) ([], [])).2).map Prod.fst)
  have hboth := hend.accounts.append hleft
  rw [List.map_map, List.append_nil, List.nil_append] at hboth
  exact hboth.perm (used_append_left hend.nodup hend.used)

theorem accounts_allChanges (a b : List PyStr) :
    Accounts (allChanges c a b) ((changedStretches c a b).flatMap Prod.fst)
      ((changedStretches c a b).flatMap Prod.snd) := by
  unfold allChanges
  induction changedStretches c a b with
  | nil => exact accounts_nil
  | cons stretch rest ih => exact (accounts_stretchChanges stretch.1 stretch.2).append ih

/-! ## The changes that are listed -/

variable {changes : List DraftChange} {objections : List (PyStr × Maker)}

theorem fixesOf_subperm (c : Comparing) (changes : List DraftChange) (objection : PyStr) :
    (fixesOf c changes objection).Subperm (List.range changes.length) := by
  unfold fixesOf
  simp only
  generalize hscored : (changes.zipIdx.map fun x ↦ (scoreOf c changes (meaningWords objection) x.1, x.2)) = scored
  have hplaces : scored.map Prod.snd = List.range changes.length := by
    rw [← hscored, List.map_map]
    exact (List.zipIdx_map_snd 0 changes).trans List.range_eq_range'.symm
  rw [← hplaces]
  apply List.Subperm.trans (List.Sublist.subperm ((List.filter_sublist.trans (List.take_sublist _ _)).map Prod.snd))
  exact ((List.perm_insertionSort _ scored).map Prod.snd).subperm

theorem fixesOf_nodup (objection : PyStr) : (fixesOf c changes objection).Nodup := by
  obtain ⟨places, hperm, hsub⟩ := fixesOf_subperm c changes objection
  exact hperm.nodup (List.nodup_range.sublist hsub)

theorem lt_of_mem_fixesOf {objection : PyStr} {i : ℕ} (h : i ∈ fixesOf c changes objection) :
    i < changes.length :=
  List.mem_range.mp ((fixesOf_subperm c changes objection).subset h)

/-- The changes that objections point to, each once. -/
theorem fixedBy_spec :
    (fixedBy c changes objections).Nodup ∧
      ∀ i, i ∈ fixedBy c changes objections ↔ ∃ o ∈ objections, i ∈ fixesOf c changes o.1 := by
  have hrun : ∀ (os : List (PyStr × Maker)) (fixed : List ℕ), fixed.Nodup →
      (os.foldl (fun fixed o ↦ fixed ++ (fixesOf c changes o.1).filter (· ∉ fixed)) fixed).Nodup ∧
        ∀ i, i ∈ os.foldl (fun fixed o ↦ fixed ++ (fixesOf c changes o.1).filter (· ∉ fixed)) fixed ↔
          i ∈ fixed ∨ ∃ o ∈ os, i ∈ fixesOf c changes o.1 := by
    intro os
    induction os with
    | nil => exact fun fixed hfixed ↦ ⟨hfixed, fun i ↦ by simp⟩
    | cons o os ih =>
      intro fixed hfixed
      have hnext : (fixed ++ (fixesOf c changes o.1).filter (· ∉ fixed)).Nodup := by
        refine List.nodup_append.mpr ⟨hfixed, (fixesOf_nodup o.1).filter _, ?_⟩
        rintro i hi j hj rfl
        simpa [hi] using (List.mem_filter.mp hj).2
      obtain ⟨hnodup, hmem⟩ := ih _ hnext
      refine ⟨hnodup, fun i ↦ (hmem i).trans ?_⟩
      simp only [List.mem_append, List.mem_filter, decide_eq_true_eq, List.mem_cons, exists_eq_or_imp]
      tauto
  obtain ⟨hnodup, hmem⟩ := hrun objections [] List.nodup_nil
  exact ⟨hnodup, fun i ↦ (hmem i).trans (by simp)⟩

theorem keptPlaces_spec :
    (keptPlaces c changes objections).length = min 14 changes.length ∧
      ∀ i ∈ keptPlaces c changes objections, i < changes.length := by
  obtain ⟨hnodup, hmem⟩ := @fixedBy_spec _ _ c changes objections
  have hperm : (fixedBy c changes objections ++ (List.range changes.length).filter
      (· ∉ fixedBy c changes objections)).Perm (List.range changes.length) := by
    rw [List.perm_ext_iff_of_nodup ?_ List.nodup_range]
    · intro i
      have hlt : i ∈ fixedBy c changes objections → i < changes.length := fun hi ↦ by
        obtain ⟨o, -, ho⟩ := (hmem i).mp hi
        exact lt_of_mem_fixesOf ho
      simp only [List.mem_append, List.mem_filter, List.mem_range, decide_eq_true_eq]
      tauto
    · refine List.nodup_append.mpr ⟨hnodup, List.nodup_range.filter _, ?_⟩
      rintro i hi j hj rfl
      simpa [hi] using (List.mem_filter.mp hj).2
  unfold keptPlaces
  simp only
  constructor
  · rw [List.length_take, hperm.length_eq, List.length_range]
  · intro i hi
    exact List.mem_range.mp (hperm.subset (List.mem_of_mem_take hi))

/-- No change that an objection points to is cut exactly when there are no more than fourteen of them. -/
theorem fixed_kept_iff :
    (∀ o ∈ objections, ∀ i ∈ fixesOf c changes o.1, i ∈ keptPlaces c changes objections) ↔
      (fixedBy c changes objections).length ≤ 14 := by
  obtain ⟨hnodup, hmem⟩ := @fixedBy_spec _ _ c changes objections
  constructor
  · intro h
    have hsubset : fixedBy c changes objections ⊆ keptPlaces c changes objections := fun i hi ↦ by
      obtain ⟨o, ho, hio⟩ := (hmem i).mp hi
      exact h o ho i hio
    have hlength := (List.subperm_of_subset hnodup hsubset).length_le
    rw [keptPlaces_spec.1] at hlength
    omega
  · intro h o ho i hi
    unfold keptPlaces
    simp only
    rw [List.take_append, List.take_of_length_le h]
    exact List.mem_append_left _ ((hmem i).mpr ⟨o, ho, hi⟩)

/-! ## The record -/

/-- The record of a revision: the fixes of an objection are listed changes, the changes listed and those
left out are all there are, each sentence of a changed stretch is in one of them, and no change that an
objection was matched to is left out. -/
def CompleteRevision (c : Comparing) (first : FirstTry) (after status : PyStr) : Prop :=
  let record := revisionOf c first after status
  let a := unitsOf first.draft
  let b := unitsOf after
  let changes := allChanges c a b
  (∀ o ∈ record.objections, ∀ i ∈ o.fixes, i < record.changes.length) ∧
    record.changes.length + record.more = changes.length ∧
      Accounts changes ((changedStretches c a b).flatMap Prod.fst) ((changedStretches c a b).flatMap Prod.snd) ∧
        ∀ o ∈ first.objections, ∀ i ∈ fixesOf c changes o.1, i ∈ keptPlaces c changes first.objections

/-- All but the last of it always holds. -/
theorem completeRevision_iff (c : Comparing) (first : FirstTry) (after status : PyStr) :
    CompleteRevision c first after status ↔
      let changes := allChanges c (unitsOf first.draft) (unitsOf after)
      ∀ o ∈ first.objections, ∀ i ∈ fixesOf c changes o.1, i ∈ keptPlaces c changes first.objections := by
  unfold CompleteRevision
  simp only
  generalize hchanges : allChanges c (unitsOf first.draft) (unitsOf after) = changes
  obtain ⟨hlength, hlt⟩ := @keptPlaces_spec _ _ c changes first.objections
  have hlisted : (revisionOf c first after status).changes.length =
      (keptPlaces c changes first.objections).length := by
    unfold revisionOf
    simp only [hchanges]
    rw [List.length_filterMap_eq_countP, List.countP_eq_length]
    intro i hi
    rw [List.getElem?_eq_getElem (hlt i hi)]
    rfl
  have hmore : (revisionOf c first after status).more =
      changes.length - (keptPlaces c changes first.objections).length := by
    unfold revisionOf
    simp only [hchanges]
  have hfixes : ∀ o ∈ (revisionOf c first after status).objections, ∀ i ∈ o.fixes,
      i < (revisionOf c first after status).changes.length := by
    rw [hlisted]
    unfold revisionOf
    simp only [hchanges]
    intro o ho i hi
    obtain ⟨objection, -, rfl⟩ := List.mem_map.mp ho
    obtain ⟨j, hj, rfl⟩ := List.mem_map.mp hi
    have hkept := (List.mem_filter.mp hj).2
    exact List.idxOf_lt_length_of_mem (by simpa using hkept)
  have hall := accounts_allChanges (c := c) (unitsOf first.draft) (unitsOf after)
  rw [hchanges] at hall
  rw [and_iff_right hfixes, and_iff_right (by rw [hlisted, hmore]; omega), and_iff_right hall]

/-- The record is complete exactly when the objections point to fourteen changes or fewer. -/
theorem revision_complete_iff (c : Comparing) (first : FirstTry) (after status : PyStr) :
    CompleteRevision c first after status ↔
      (fixedBy c (allChanges c (unitsOf first.draft) (unitsOf after)) first.objections).length ≤ 14 :=
  (completeRevision_iff c first after status).trans fixed_kept_iff

theorem length_fixedBy_le : (fixedBy c changes objections).length ≤ 2 * objections.length := by
  have htwo (objection : PyStr) : (fixesOf c changes objection).length ≤ 2 := by
    unfold fixesOf
    simp only
    rw [List.length_map]
    exact (List.length_filter_le _ _).trans (List.length_take_le _ _)
  have hrun : ∀ (os : List (PyStr × Maker)) (fixed : List ℕ),
      (os.foldl (fun fixed o ↦ fixed ++ (fixesOf c changes o.1).filter (· ∉ fixed)) fixed).length ≤
        fixed.length + 2 * os.length := by
    intro os
    induction os with
    | nil => exact fun fixed ↦ le_rfl
    | cons o os ih =>
      intro fixed
      have hnew := (List.length_filter_le (· ∉ fixed) (fixesOf c changes o.1)).trans (htwo o.1)
      have hrest := ih (fixed ++ (fixesOf c changes o.1).filter (· ∉ fixed))
      rw [List.length_append] at hrest
      rw [List.foldl_cons, List.length_cons]
      omega
  have hall := hrun objections []
  rwa [List.length_nil, Nat.zero_add] at hall

/-- With seven objections or fewer the record is complete. -/
theorem revision_complete_of_few {first : FirstTry} (h : first.objections.length ≤ 7) (after status : PyStr) :
    CompleteRevision c first after status := by
  refine (completeRevision_iff c first after status).mpr (fixed_kept_iff.mpr ?_)
  exact length_fixedBy_le.trans (by omega)

end

/-! ## Eight objections -/

/-- All of the first draft is gone: the opcodes of two drafts of which the second has no sentence. -/
def deleting : Comparing where
  opcodes a _ := [⟨false, 0, a.length, 0, 0⟩]
  ratio _ _ := .finite 0
  iterate ws := ws
  sum xs := xs.foldl Double.add (.finite 0)

def sixteenNames : List PyStr :=
  [py "alpha", py "bravo", py "delta", py "echo", py "golf", py "hotel", py "india", py "juliet", py "kilo",
    py "lima", py "mike", py "oscar", py "papa", py "quebec", py "romeo", py "tango"]

/-- One sentence for each name, and an objection for every two of them. -/
def eightObjections : FirstTry where
  draft := join [10] (sixteenNames.map fun name ↦ name ++ py " ok")
  failedBy := py "ULTRON"
  objections := (List.range 8).map fun k ↦
    (join (py " ") ((sixteenNames.drop (2 * k)).take 2), .ultron)

/-- Each objection is matched to its two changes, and two of the sixteen are cut. -/
theorem matched_changes_cut :
    ¬ @CompleteRevision asciiTables asciiCasing deleting eightObjections (py "None.") (py "PASS") := by
  have hmany : ¬ (@fixedBy deleting asciiTables asciiCasing (@allChanges deleting asciiTables asciiCasing
      (@unitsOf asciiTables eightObjections.draft) (@unitsOf asciiTables (py "None.")))
        eightObjections.objections).length ≤ 14 := by decide +kernel
  exact fun h ↦ hmany ((@fixed_kept_iff asciiTables asciiCasing _ _ _).mp
    ((@completeRevision_iff asciiTables asciiCasing _ _ _ _).mp h))

end FourCE.Orchestrator

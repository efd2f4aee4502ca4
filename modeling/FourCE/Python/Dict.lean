import FourCE.Python.JsonRoundTrip

/-!
# Dictionaries

Lookups after updates, for dictionaries kept as lists of pairs in insertion order.
-/

namespace FourCE.Python

variable {F : Type}

abbrev Dict (F : Type) := List (PyStr × Json F)

/-- The keys of a dictionary. -/
def dictKeys (d : Dict F) : List PyStr := d.map Prod.fst

/-! ## Lookup -/

theorem dictGet_cons (p : PyStr × Json F) (d : Dict F) (k : PyStr) :
    dictGet (p :: d) k = if p.1 = k then some p.2 else dictGet d k := by
  by_cases h : p.1 = k <;> simp [dictGet, h]

theorem dictGet_eq_none_iff (d : Dict F) (k : PyStr) : dictGet d k = none ↔ k ∉ dictKeys d := by
  induction d with
  | nil => simp [dictGet, dictKeys]
  | cons p d ih =>
    rw [dictGet_cons]
    by_cases h : p.1 = k
    · simp [h, dictKeys]
    · have hne : ¬ k = p.1 := fun he ↦ h he.symm
      rw [if_neg h, ih]
      simp [dictKeys, hne]

/-- With unique keys a lookup finds exactly the pairs that are there. -/
theorem dictGet_eq_some_iff {d : Dict F} (hkeys : (dictKeys d).Nodup) (k : PyStr) (v : Json F) :
    dictGet d k = some v ↔ (k, v) ∈ d := by
  induction d with
  | nil => simp [dictGet]
  | cons p d ih =>
    obtain ⟨hfresh, htail⟩ := List.nodup_cons.mp hkeys
    rw [dictGet_cons]
    by_cases h : p.1 = k
    · subst h
      have hout : ¬ (p.1, v) ∈ d := fun hmem ↦ hfresh (List.mem_map.mpr ⟨(p.1, v), hmem, rfl⟩)
      simp [hout, Prod.ext_iff, eq_comm]
    · have hne : ¬ (k, v) = p := fun he ↦ h (by rw [← he])
      rw [if_neg h, ih htail, List.mem_cons, or_iff_right hne]

/-! ## Updates -/

@[simp]
theorem dictGet_dictSet_self (d : Dict F) (k : PyStr) (v : Json F) :
    dictGet (dictSet d k v) k = some v := by
  induction d with
  | nil => simp [dictSet, dictGet]
  | cons p d ih =>
    rw [dictSet]
    by_cases h : p.1 = k
    · rw [if_pos h, dictGet_cons, if_pos rfl]
    · rw [if_neg h, dictGet_cons, if_neg h, ih]

theorem dictGet_dictSet_of_ne (d : Dict F) {k l : PyStr} (v : Json F) (h : l ≠ k) :
    dictGet (dictSet d k v) l = dictGet d l := by
  induction d with
  | nil => simp [dictSet, dictGet, h.symm]
  | cons p d ih =>
    rw [dictSet]
    by_cases hp : p.1 = k
    · have hne : ¬ p.1 = l := fun he ↦ h (he.symm.trans hp)
      rw [if_pos hp, dictGet_cons, dictGet_cons, if_neg h.symm, if_neg hne]
    · rw [if_neg hp, dictGet_cons, dictGet_cons, ih]

theorem dictKeys_dictSet (d : Dict F) (k : PyStr) (v : Json F) :
    dictKeys (dictSet d k v) = if k ∈ dictKeys d then dictKeys d else dictKeys d ++ [k] := by
  induction d with
  | nil => simp [dictSet, dictKeys]
  | cons p d ih =>
    have hcons (p : PyStr × Json F) (e : Dict F) : dictKeys (p :: e) = p.1 :: dictKeys e := rfl
    rw [dictSet]
    by_cases hp : p.1 = k
    · rw [if_pos hp, hcons, hcons, if_pos (by simp [hp]), hp]
    · have hne : ¬ k = p.1 := fun he ↦ hp he.symm
      rw [if_neg hp, hcons, hcons, ih]
      by_cases hk : k ∈ dictKeys d <;> simp [hk, hne]

theorem nodup_dictSet {d : Dict F} (hkeys : (dictKeys d).Nodup) (k : PyStr) (v : Json F) :
    (dictKeys (dictSet d k v)).Nodup := by
  rw [dictKeys_dictSet]
  split_ifs with hk
  · exact hkeys
  · exact hkeys.append (List.nodup_singleton k) (List.disjoint_singleton.mpr hk)

theorem mem_dictSet {d : Dict F} {k : PyStr} {v : Json F} {p : PyStr × Json F}
    (h : p ∈ dictSet d k v) : p = (k, v) ∨ p ∈ d := by
  induction d with
  | nil => simpa [dictSet] using h
  | cons q d ih =>
    rw [dictSet] at h
    split_ifs at h
    · exact (List.mem_cons.mp h).imp_right fun hd ↦ List.mem_cons_of_mem _ hd
    · rcases List.mem_cons.mp h with rfl | hd
      · exact Or.inr List.mem_cons_self
      · exact (ih hd).imp_right fun hd ↦ List.mem_cons_of_mem _ hd

theorem wf_dictSet {d : Dict F} (hd : (Json.obj d).wf = true) (k : PyStr) {v : Json F}
    (hv : v.wf = true) : (Json.obj (dictSet d k v)).wf = true := by
  rw [wf_obj_iff] at hd ⊢
  refine ⟨nodup_dictSet hd.1 k v, fun p hp ↦ ?_⟩
  rcases mem_dictSet hp with rfl | hmem
  · exact hv
  · exact hd.2 p hmem

theorem wf_dictUpdate {d : Dict F} (hd : (Json.obj d).wf = true) {e : Dict F}
    (he : ∀ p ∈ e, p.2.wf = true) : (Json.obj (dictUpdate d e)).wf = true := by
  induction e generalizing d with
  | nil => exact hd
  | cons p e ih =>
    exact ih (wf_dictSet hd p.1 (he p List.mem_cons_self))
      fun q hq ↦ he q (List.mem_cons_of_mem _ hq)

theorem dictGet_dictUpdate_of_notMem (d : Dict F) {e : Dict F} {k : PyStr} (h : k ∉ dictKeys e) :
    dictGet (dictUpdate d e) k = dictGet d k := by
  induction e generalizing d with
  | nil => rfl
  | cons p e ih =>
    have hne : k ≠ p.1 := fun he ↦ h (he ▸ List.mem_cons_self)
    have htail : k ∉ dictKeys e := fun hmem ↦ h (List.mem_cons_of_mem _ hmem)
    exact (ih (dictSet d p.1 p.2) htail).trans (dictGet_dictSet_of_ne d p.2 hne)

/-! ## Removal -/

theorem dictErase_dictSet (d : Dict F) (k : PyStr) (v : Json F) :
    dictErase (dictSet d k v) k = dictErase d k := by
  induction d with
  | nil => simp [dictSet, dictErase]
  | cons p d ih =>
    rw [dictSet]
    by_cases hp : p.1 = k
    · simp [dictErase, hp]
    · simpa [dictErase, hp] using ih

theorem wf_dictErase {d : Dict F} (hd : (Json.obj d).wf = true) (k : PyStr) :
    (Json.obj (dictErase d k)).wf = true := by
  rw [wf_obj_iff] at hd ⊢
  exact ⟨(List.filter_sublist.map Prod.fst).nodup hd.1,
    fun p hp ↦ hd.2 p (List.mem_of_mem_filter hp)⟩

theorem dictGet_dictErase_self (d : Dict F) (k : PyStr) : dictGet (dictErase d k) k = none := by
  rw [dictGet_eq_none_iff, dictKeys, List.mem_map]
  rintro ⟨p, hp, rfl⟩
  simp [dictErase] at hp

theorem dictGet_dictErase_of_ne (d : Dict F) {k l : PyStr} (h : l ≠ k) :
    dictGet (dictErase d k) l = dictGet d l := by
  induction d with
  | nil => rfl
  | cons p d ih =>
    have hcons : dictErase (p :: d) k = if p.1 ≠ k then p :: dictErase d k else dictErase d k := by
      simp [dictErase, List.filter_cons]
    rw [hcons, dictGet_cons]
    by_cases hp : p.1 = k
    · have hne : ¬ p.1 = l := fun he ↦ h (he.symm.trans hp)
      rw [if_neg (not_not_intro hp), ih, if_neg hne]
    · rw [if_pos hp, dictGet_cons, ih]

/-! ## Key order -/

theorem dictKeys_sorted_nodup {d : Dict F} (hkeys : (dictKeys d).Nodup) :
    (dictKeys ((sortMembers d).insertionSort keyLe)).Nodup := by
  rw [dictKeys, (insertionSort_keys_perm _).nodup_iff, sortMembers_keys]
  exact hkeys

/-- Reading from the sorted dictionary reads the sorted value. -/
theorem dictGet_sorted {d : Dict F} (hkeys : (dictKeys d).Nodup) (k : PyStr) :
    dictGet ((sortMembers d).insertionSort keyLe) k = (dictGet d k).map Json.sortKeys := by
  ext v
  have hmem : (k, v) ∈ (sortMembers d).insertionSort keyLe ↔ ∃ w, (k, w) ∈ d ∧ w.sortKeys = v := by
    rw [List.mem_insertionSort, sortMembers_eq]
    simp
  rw [dictGet_eq_some_iff (dictKeys_sorted_nodup hkeys), hmem]
  simp [dictGet_eq_some_iff hkeys]

/-- Two dictionaries are the same when they answer every lookup alike. -/
theorem same_obj_iff {d e : Dict F} (hd : (dictKeys d).Nodup) (he : (dictKeys e).Nodup) :
    (Json.obj d).Same (.obj e) ↔
      ∀ k, (dictGet d k).map Json.sortKeys = (dictGet e k).map Json.sortKeys := by
  constructor
  · intro hsame k
    have hsorted : (sortMembers d).insertionSort keyLe = (sortMembers e).insertionSort keyLe := by
      simpa [Json.Same, Json.sortKeys] using hsame
    rw [← dictGet_sorted hd, ← dictGet_sorted he, hsorted]
  · intro hget
    have hmem {c : Dict F} (hc : (dictKeys c).Nodup) (p : PyStr × Json F) :
        p ∈ sortMembers c ↔ (dictGet c p.1).map Json.sortKeys = some p.2 := by
      rw [← dictGet_sorted hc, dictGet_eq_some_iff (dictKeys_sorted_nodup hc),
        List.mem_insertionSort]
    have hkeys {c : Dict F} (hc : (dictKeys c).Nodup) : ((sortMembers c).map Prod.fst).Nodup := by
      rwa [sortMembers_keys]
    have hperm : (sortMembers d).Perm (sortMembers e) := by
      rw [List.perm_ext_iff_of_nodup (hkeys hd).of_map (hkeys he).of_map]
      intro p
      rw [hmem hd, hmem he, hget]
    rw [Json.Same, Json.sortKeys, Json.sortKeys, insertionSort_eq_of_perm hperm (hkeys hd)]

/-- What two dictionaries share without a key they share with it, once that entry agrees. -/
theorem same_of_dictErase {d e : Dict F} (hd : (Json.obj d).wf = true) (he : (Json.obj e).wf = true)
    {k : PyStr} (hget : dictGet d k = dictGet e k)
    (herase : (Json.obj (dictErase d k)).Same (.obj (dictErase e k))) :
    (Json.obj d).Same (.obj e) := by
  have hkeys {c : Dict F} (hc : (Json.obj c).wf = true) : (dictKeys c).Nodup :=
    ((wf_obj_iff c).mp hc).1
  rw [same_obj_iff (hkeys (wf_dictErase hd k)) (hkeys (wf_dictErase he k))] at herase
  rw [same_obj_iff (hkeys hd) (hkeys he)]
  intro l
  by_cases hl : l = k
  · rw [hl, hget]
  · rw [← dictGet_dictErase_of_ne d hl, ← dictGet_dictErase_of_ne e hl]
    exact herase l

end FourCE.Python

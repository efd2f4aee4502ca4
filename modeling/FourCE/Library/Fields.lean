import Mathlib.Data.Finmap

/-!
# Maps with finitely many keys

Changing every value of a finite map, and taking a set of keys out of one.
-/

namespace FourCE.Library

variable {K V W : Type} [DecidableEq K]

abbrev Fields (K V : Type) := Finmap fun _ : K ↦ V

namespace Fields

omit [DecidableEq K] in
theorem keys_mapValues (f : V → W) (s : Multiset ((_ : K) × V)) :
    (s.map fun p ↦ (⟨p.1, f p.2⟩ : (_ : K) × W)).keys = s.keys := by
  simp [Multiset.keys]

def mapValues (f : V → W) (m : Fields K V) : Fields K W :=
  ⟨m.entries.map fun p ↦ ⟨p.1, f p.2⟩, by
    rw [← Multiset.nodup_keys, keys_mapValues, Multiset.nodup_keys]
    exact m.nodupKeys⟩

def without (m : Fields K V) (ks : Finset K) : Fields K V :=
  ⟨m.entries.filter fun p ↦ p.1 ∉ ks, by
    rw [← Multiset.nodup_keys]
    refine Multiset.nodup_of_le ?_ (Multiset.nodup_keys.mpr m.nodupKeys)
    exact Multiset.map_le_map (Multiset.filter_le _ _)⟩

@[simp]
theorem lookup_mapValues (f : V → W) (m : Fields K V) (k : K) :
    (mapValues f m).lookup k = (m.lookup k).map f := by
  ext w
  simp only [Option.map_eq_some_iff, Finmap.lookup_eq_some_iff, mapValues, Multiset.mem_map]
  constructor
  · rintro ⟨⟨k', v⟩, hmem, heq⟩
    cases heq
    exact ⟨v, hmem, rfl⟩
  · rintro ⟨v, hmem, rfl⟩
    exact ⟨⟨k, v⟩, hmem, rfl⟩

@[simp]
theorem lookup_without (m : Fields K V) (ks : Finset K) (k : K) :
    (without m ks).lookup k = if k ∈ ks then none else m.lookup k := by
  ext v
  rw [Finmap.lookup_eq_some_iff, without, Multiset.mem_filter]
  split_ifs with hk
  · simp [hk]
  · simp [hk, Finmap.lookup_eq_some_iff]

theorem without_empty (m : Fields K V) : without m ∅ = m := by
  apply Finmap.ext_lookup
  intro k
  rw [lookup_without, if_neg (Finset.notMem_empty k)]

end Fields

end FourCE.Library

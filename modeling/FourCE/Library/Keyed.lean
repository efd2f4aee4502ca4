import Mathlib.Data.List.Nodup
import Mathlib.Tactic.Common

/-!
# Dictionaries in insertion order

Pairs with keys of their own, in the order in which the keys were first put in.  What an update does to
one key is said by `get?`, what it does to the order by `keys`.
-/

namespace FourCE.Library

structure Keyed (K V : Type) where
  entries : List (K × V)
  nodup : (entries.map Prod.fst).Nodup

namespace Keyed

variable {K V : Type}

def keys (d : Keyed K V) : List K := d.entries.map Prod.fst

theorem keys_nodup (d : Keyed K V) : d.keys.Nodup := d.nodup

variable [DecidableEq K]

def get? (d : Keyed K V) (k : K) : Option V := (d.entries.find? (·.1 = k)).map Prod.snd

theorem get?_eq_some_iff {d : Keyed K V} {k : K} {v : V} : d.get? k = some v ↔ (k, v) ∈ d.entries := by
  unfold get?
  constructor
  · intro h
    obtain ⟨e, he, rfl⟩ := Option.map_eq_some_iff.mp h
    have hk : e.1 = k := by simpa using List.find?_some he
    subst hk
    exact List.mem_of_find?_eq_some he
  · intro h
    rcases hfind : d.entries.find? (·.1 = k) with _ | e
    · have hnot := List.find?_eq_none.mp hfind (k, v) h
      simp at hnot
    · have hk : e.1 = k := by simpa using List.find?_some hfind
      have he := List.inj_on_of_nodup_map d.nodup (List.mem_of_find?_eq_some hfind) h hk
      rw [hfind, he]
      rfl

theorem mem_keys {d : Keyed K V} {k : K} : k ∈ d.keys ↔ ∃ v, d.get? k = some v := by
  unfold keys
  rw [List.mem_map]
  constructor
  · rintro ⟨⟨_, v⟩, he, rfl⟩
    exact ⟨v, get?_eq_some_iff.mpr he⟩
  · rintro ⟨v, hv⟩
    exact ⟨(k, v), get?_eq_some_iff.mp hv, rfl⟩

theorem get?_eq_none {d : Keyed K V} {k : K} : d.get? k = none ↔ k ∉ d.keys := by
  rw [mem_keys, Option.eq_none_iff_forall_ne_some, not_exists]

/-- The keys in their order and what is under each of them are all there is. -/
theorem ext_get {d e : Keyed K V} (hkeys : d.keys = e.keys) (hget : ∀ k, d.get? k = e.get? k) : d = e := by
  have hpairs : ∀ c : Keyed K V,
      c.entries.map (fun p ↦ (p.1, some p.2)) = c.keys.map fun k ↦ (k, c.get? k) := by
    intro c
    unfold keys
    rw [List.map_map]
    refine List.map_congr_left fun p hp ↦ ?_
    rw [Function.comp_apply, get?_eq_some_iff.mpr hp]
  have hinjective : Function.Injective fun p : K × V ↦ (p.1, some p.2) := by
    rintro ⟨k, v⟩ ⟨l, w⟩ h
    simpa using h
  have hentries : d.entries = e.entries := by
    apply List.map_injective_iff.mpr hinjective
    rw [hpairs, hpairs, hkeys]
    simp only [hget]
  cases d
  cases e
  congr

/-! ## Updates -/

def empty : Keyed K V := ⟨[], List.nodup_nil⟩

def map (d : Keyed K V) (f : K → V → V) : Keyed K V :=
  ⟨d.entries.map fun e ↦ (e.1, f e.1 e.2), by rw [List.map_map]; exact d.nodup⟩

def modify (d : Keyed K V) (k : K) (f : V → V) : Keyed K V :=
  d.map fun k' v ↦ if k' = k then f v else v

/-- The pairs whose keys pass. -/
def filterKeys (d : Keyed K V) (p : K → Bool) : Keyed K V :=
  ⟨d.entries.filter fun e ↦ p e.1, (List.filter_sublist.map Prod.fst).nodup d.nodup⟩

/-- The pairs that pass. -/
def filter (d : Keyed K V) (p : K → V → Bool) : Keyed K V :=
  ⟨d.entries.filter fun e ↦ p e.1 e.2, (List.filter_sublist.map Prod.fst).nodup d.nodup⟩

/-- A new value for the key, in its place if it is there and at the end if it is not. -/
def set (d : Keyed K V) (k : K) (v : V) : Keyed K V :=
  if h : k ∈ d.keys then d.modify k fun _ ↦ v
  else ⟨d.entries ++ [(k, v)], by
    rw [List.map_append]
    exact d.nodup.append (List.nodup_singleton k) (List.disjoint_singleton.mpr h)⟩

/-- The pairs put in one after the other. -/
def ofList (es : List (K × V)) : Keyed K V := es.foldl (fun d e ↦ d.set e.1 e.2) empty

/-- Both dictionaries, with the values of the second where they share a key. -/
def union (d e : Keyed K V) : Keyed K V :=
  ⟨(d.map fun k v ↦ (e.get? k).getD v).entries ++ (e.filterKeys fun k ↦ k ∉ d.keys).entries, by
    rw [List.map_append]
    refine (d.map _).nodup.append (e.filterKeys _).nodup fun k hk hk' ↦ ?_
    obtain ⟨p, hp, rfl⟩ := List.mem_map.mp hk'
    have hout : p.1 ∉ d.keys := by simpa using (List.mem_filter.mp hp).2
    refine hout ?_
    have hkeys : (d.map fun k v ↦ (e.get? k).getD v).entries.map Prod.fst = d.keys := by
      unfold map keys
      rw [List.map_map]
      rfl
    exact hkeys ▸ hk⟩

omit [DecidableEq K] in
@[simp]
theorem keys_map (d : Keyed K V) (f : K → V → V) : (d.map f).keys = d.keys := by
  unfold map keys
  rw [List.map_map]
  rfl

@[simp]
theorem get?_map (d : Keyed K V) (f : K → V → V) (k : K) :
    (d.map f).get? k = (d.get? k).map (f k) := by
  ext v
  rw [Option.map_eq_some_iff, get?_eq_some_iff]
  unfold map
  rw [List.mem_map]
  constructor
  · rintro ⟨⟨k', v'⟩, he, heq⟩
    cases heq
    exact ⟨v', get?_eq_some_iff.mpr he, rfl⟩
  · rintro ⟨v', hv', rfl⟩
    exact ⟨(k, v'), get?_eq_some_iff.mp hv', rfl⟩

@[simp]
theorem keys_modify (d : Keyed K V) (k : K) (f : V → V) : (d.modify k f).keys = d.keys :=
  keys_map d _

theorem get?_modify (d : Keyed K V) (k k' : K) (f : V → V) :
    (d.modify k f).get? k' = if k' = k then (d.get? k').map f else d.get? k' := by
  unfold modify
  rw [get?_map]
  split_ifs with h
  · rfl
  · exact Option.map_id'

omit [DecidableEq K] in
theorem keys_filterKeys (d : Keyed K V) (p : K → Bool) : (d.filterKeys p).keys = d.keys.filter p := by
  unfold filterKeys keys
  rw [List.filter_map]
  rfl

theorem get?_filterKeys (d : Keyed K V) (p : K → Bool) (k : K) :
    (d.filterKeys p).get? k = if p k then d.get? k else none := by
  ext v
  rw [get?_eq_some_iff]
  unfold filterKeys
  rw [List.mem_filter]
  split_ifs with h
  · rw [get?_eq_some_iff, and_iff_left h]
  · simp [h]

theorem get?_filter (d : Keyed K V) (p : K → V → Bool) (k : K) :
    (d.filter p).get? k = (d.get? k).filter (p k) := by
  ext v
  rw [get?_eq_some_iff, Option.filter_eq_some_iff, get?_eq_some_iff]
  unfold filter
  rw [List.mem_filter]

theorem keys_set (d : Keyed K V) (k : K) (v : V) :
    (d.set k v).keys = if k ∈ d.keys then d.keys else d.keys ++ [k] := by
  unfold set
  split_ifs with h
  · exact keys_modify d k _
  · unfold keys
    rw [List.map_append]
    rfl

theorem get?_set (d : Keyed K V) (k k' : K) (v : V) :
    (d.set k v).get? k' = if k' = k then some v else d.get? k' := by
  unfold set
  split_ifs with h hk hk
  · obtain ⟨old, hold⟩ := mem_keys.mp h
    rw [get?_modify, if_pos hk, hk, hold]
    rfl
  · rw [get?_modify, if_neg hk]
  · rw [get?_eq_some_iff, hk]
    exact List.mem_append_right _ (List.mem_singleton_self _)
  · ext v'
    rw [get?_eq_some_iff, get?_eq_some_iff, List.mem_append, List.mem_singleton]
    exact or_iff_left fun he ↦ hk (congrArg Prod.fst he)

/-- What is there already changes nothing. -/
theorem set_self {d : Keyed K V} {k : K} {v : V} (h : d.get? k = some v) : d.set k v = d := by
  apply ext_get
  · rw [keys_set, if_pos (mem_keys.mpr ⟨v, h⟩)]
  · intro l
    rw [get?_set]
    split_ifs with hl
    · rw [hl, h]
    · rfl

theorem keys_union (d e : Keyed K V) : (d.union e).keys = d.keys ++ e.keys.filter (· ∉ d.keys) := by
  have happend : (d.union e).keys =
      (d.map fun k v ↦ (e.get? k).getD v).keys ++ (e.filterKeys fun k ↦ k ∉ d.keys).keys := by
    unfold union keys
    rw [List.map_append]
  rw [happend, keys_map, keys_filterKeys]

theorem get?_union (d e : Keyed K V) (k : K) : (d.union e).get? k = (e.get? k).or (d.get? k) := by
  ext v
  rw [get?_eq_some_iff]
  unfold union
  rw [List.mem_append, ← get?_eq_some_iff, ← get?_eq_some_iff, get?_map, get?_filterKeys]
  rcases hd : d.get? k with _ | old
  · have hout : k ∉ d.keys := get?_eq_none.mp hd
    simp [hout]
  · have hin : k ∈ d.keys := mem_keys.mpr ⟨old, hd⟩
    rcases e.get? k with _ | new <;> simp [hin]

theorem mem_keys_union {d e : Keyed K V} {k : K} : k ∈ (d.union e).keys ↔ k ∈ d.keys ∨ k ∈ e.keys := by
  rw [mem_keys, mem_keys, mem_keys, get?_union]
  rcases e.get? k with _ | new
  · simp
  · simp

/-- Pairs with keys of their own are put in as they are. -/
theorem entries_ofList {es : List (K × V)} (h : (es.map Prod.fst).Nodup) : (ofList es).entries = es := by
  have hfold : ∀ (es : List (K × V)) (d : Keyed K V), ((d.entries ++ es).map Prod.fst).Nodup →
      (es.foldl (fun d e ↦ d.set e.1 e.2) d).entries = d.entries ++ es := by
    intro es
    induction es with
    | nil => exact fun d _ ↦ (List.append_nil _).symm
    | cons e es ih =>
      intro d hnodup
      have hnew : e.1 ∉ d.keys := by
        rw [List.map_append, List.map_cons] at hnodup
        exact fun hmem ↦ List.disjoint_of_nodup_append hnodup hmem List.mem_cons_self
      have hset : (d.set e.1 e.2).entries = d.entries ++ [e] := by
        rw [set, dif_neg hnew]
      rw [List.foldl_cons, ih _ (by rwa [hset, List.append_assoc]), hset, List.append_assoc]
      rfl
  exact hfold es empty h

end Keyed

end FourCE.Library

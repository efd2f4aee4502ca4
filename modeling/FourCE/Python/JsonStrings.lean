import FourCE.Python.Dict

/-!
# The strings of a JSON value

The strings that a value holds, its keys among them, a function on all of them, and where they stand in the
text that `json.dumps` writes.
-/

namespace FourCE.Python

variable {F : Type}

mutual
/-- The strings and the keys in a value. -/
def Json.strings : Json F → List PyStr
  | .str s => [s]
  | .arr xs => elemStrings xs
  | .obj d => memberStrings d
  | .null | .bool _ | .int _ | .float _ => []
def elemStrings : List (Json F) → List PyStr
  | [] => []
  | x :: xs => x.strings ++ elemStrings xs
def memberStrings : List (PyStr × Json F) → List PyStr
  | [] => []
  | (k, v) :: d => k :: v.strings ++ memberStrings d
end

mutual
/-- The value with a function on each string and each key. -/
def Json.mapStrings (f : PyStr → PyStr) : Json F → Json F
  | .str s => .str (f s)
  | .arr xs => .arr (mapElems f xs)
  | .obj d => .obj (mapMembers f d)
  | .null => .null
  | .bool b => .bool b
  | .int i => .int i
  | .float x => .float x
def mapElems (f : PyStr → PyStr) : List (Json F) → List (Json F)
  | [] => []
  | x :: xs => x.mapStrings f :: mapElems f xs
def mapMembers (f : PyStr → PyStr) : List (PyStr × Json F) → List (PyStr × Json F)
  | [] => []
  | (k, v) :: d => (f k, v.mapStrings f) :: mapMembers f d
end

mutual
/-- A function that leaves each string as it is leaves the value. -/
theorem mapStrings_eq_self {f : PyStr → PyStr} : ∀ v : Json F, (∀ s ∈ v.strings, f s = s) → v.mapStrings f = v
  | .null, _ | .bool _, _ | .int _, _ | .float _, _ => rfl
  | .str s, h => congrArg Json.str (h s List.mem_cons_self)
  | .arr xs, h => congrArg Json.arr (mapElems_eq_self xs h)
  | .obj d, h => congrArg Json.obj (mapMembers_eq_self d h)
theorem mapElems_eq_self {f : PyStr → PyStr} : ∀ xs : List (Json F), (∀ s ∈ elemStrings xs, f s = s) →
    mapElems f xs = xs
  | [], _ => rfl
  | x :: xs, h => by
    rw [mapElems, mapStrings_eq_self x fun s hs ↦ h s (List.mem_append_left _ hs),
      mapElems_eq_self xs fun s hs ↦ h s (List.mem_append_right _ hs)]
theorem mapMembers_eq_self {f : PyStr → PyStr} : ∀ d : List (PyStr × Json F), (∀ s ∈ memberStrings d, f s = s) →
    mapMembers f d = d
  | [], _ => rfl
  | (k, v) :: d, h => by
    rw [mapMembers, h k List.mem_cons_self,
      mapStrings_eq_self v fun s hs ↦ h s (List.mem_append_left _ (List.mem_cons_of_mem k hs)),
      mapMembers_eq_self d fun s hs ↦ h s (List.mem_append_right _ hs)]
end

theorem mapMembers_keys (f : PyStr → PyStr) (d : List (PyStr × Json F)) :
    (mapMembers f d).map Prod.fst = (d.map Prod.fst).map f := by
  induction d with
  | nil => rfl
  | cons p d ih =>
    obtain ⟨k, v⟩ := p
    rw [mapMembers, List.map_cons, ih]
    rfl

/-- Keys that are set one after the other stand in this order, where none comes twice. -/
theorem dictUpdate_of_nodup {d e : List (PyStr × Json F)} (hkeys : ((d ++ e).map Prod.fst).Nodup) :
    dictUpdate d e = d ++ e := by
  have hfresh (d : List (PyStr × Json F)) {k : PyStr} (hk : k ∉ d.map Prod.fst) (v : Json F) :
      dictSet d k v = d ++ [(k, v)] := by
    induction d with
    | nil => rfl
    | cons p d ih =>
      rw [List.map_cons, List.mem_cons, not_or] at hk
      rw [dictSet, if_neg (Ne.symm hk.1), ih hk.2]
      rfl
  induction e generalizing d with
  | nil => exact (List.append_nil d).symm
  | cons p e ih =>
    have hp : p.1 ∉ d.map Prod.fst := by
      rw [List.map_append, List.nodup_append] at hkeys
      exact fun hmem ↦ hkeys.2.2 p.1 hmem p.1 List.mem_cons_self rfl
    calc
      dictUpdate d (p :: e) = dictUpdate (dictSet d p.1 p.2) e := rfl
      _ = (d ++ [p]) ++ e := by
        rw [hfresh d hp]
        exact ih (by rwa [List.append_assoc])
      _ = d ++ p :: e := List.append_assoc _ _ _

/-! ## Where they stand in the text -/

section Emit

variable [PyFloat F]

theorem infix_quote (s : PyStr) : s.flatMap escapeChar <:+: quote s := List.infix_append _ _ _

mutual
/-- Each string of a value stands in its text, escaped. -/
theorem infix_emit (spaced : Bool) : ∀ v : Json F, ∀ s ∈ v.strings, s.flatMap escapeChar <:+: v.emit spaced
  | .null, _, hs | .bool _, _, hs | .int _, _, hs | .float _, _, hs => absurd hs List.not_mem_nil
  | .str t, s, hs => by
    rw [List.mem_singleton.mp hs]
    exact infix_quote t
  | .arr xs, s, hs => (infix_emitElems spaced xs s hs).trans (List.suffix_append _ _).isInfix
  | .obj d, s, hs => (infix_emitMembers spaced d s hs).trans (List.suffix_append _ _).isInfix
theorem infix_emitElems (spaced : Bool) : ∀ xs : List (Json F), ∀ s ∈ elemStrings xs,
    s.flatMap escapeChar <:+: emitElems spaced xs
  | [], _, hs => absurd hs List.not_mem_nil
  | [x], s, hs => by
    rw [elemStrings, elemStrings, List.append_nil] at hs
    exact (infix_emit spaced x s hs).trans (List.prefix_append _ _).isInfix
  | x :: y :: xs, s, hs => by
    rw [elemStrings] at hs
    rw [emitElems]
    rcases List.mem_append.mp hs with hx | hrest
    · exact ((infix_emit spaced x s hx).trans (List.prefix_append _ _).isInfix).trans
        (List.prefix_append _ _).isInfix
    · exact (infix_emitElems spaced (y :: xs) s hrest).trans (List.suffix_append _ _).isInfix
theorem infix_emitMembers (spaced : Bool) : ∀ d : List (PyStr × Json F), ∀ s ∈ memberStrings d,
    s.flatMap escapeChar <:+: emitMembers spaced d
  | [], _, hs => absurd hs List.not_mem_nil
  | [(k, v)], s, hs => by
    rw [memberStrings, memberStrings, List.append_nil] at hs
    rw [emitMembers]
    rcases List.mem_cons.mp hs with rfl | hv
    · rw [List.append_assoc, List.append_assoc]
      exact (infix_quote s).trans (List.prefix_append _ _).isInfix
    · exact ((infix_emit spaced v s hv).trans (List.suffix_append _ _).isInfix).trans
        (List.prefix_append _ _).isInfix
  | (k, v) :: p :: d, s, hs => by
    rw [memberStrings] at hs
    rw [emitMembers]
    rcases List.mem_append.mp hs with hfirst | hrest
    · refine List.IsInfix.trans ?_ (List.prefix_append _ _).isInfix
      refine List.IsInfix.trans ?_ (List.prefix_append _ _).isInfix
      rcases List.mem_cons.mp hfirst with rfl | hv
      · rw [List.append_assoc]
        exact (infix_quote s).trans (List.prefix_append _ _).isInfix
      · exact (infix_emit spaced v s hv).trans (List.suffix_append _ _).isInfix
    · exact (infix_emitMembers spaced (p :: d) s hrest).trans (List.suffix_append _ _).isInfix
end

end Emit

end FourCE.Python

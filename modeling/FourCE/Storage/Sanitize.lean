import FourCE.Python.JsonStrings
import FourCE.Python.Words
import FourCE.Sop.Disposition
import Mathlib.Data.List.Infix

/-!
# Sanitising for the database

`sanitize_text_for_db` and `sanitize_data_for_db` of `utils/misc.py`.  Of `JSONCodec.dumps`, called with
`ensure_ascii=False`, no more is used than that each string stands in its text, NUL escaped and surrogates as
they are.
-/

namespace FourCE.Storage

open FourCE.Python

variable {F : Type}

/-- `sanitize_text_for_db(text)`. -/
def sanitizeTextForDb (text : PyStr) : PyStr :=
  if !contains [0] text && !text.any CodePoint.isSurrogate then text
  else (replace [0] [] text).filter fun c ↦ !c.isSurrogate

mutual
/-- `_strip_null_bytes_deep(obj)`. -/
def stripNullBytesDeep : Json F → Json F
  | .str s => .str (sanitizeTextForDb s)
  | .arr xs => .arr (stripElems xs)
  | .obj d => .obj (dictUpdate [] (stripMembers d))
  | .null => .null
  | .bool b => .bool b
  | .int i => .int i
  | .float x => .float x
def stripElems : List (Json F) → List (Json F)
  | [] => []
  | x :: xs => stripNullBytesDeep x :: stripElems xs
/-- What is set in `cleaned`, in this order. -/
def stripMembers : List (PyStr × Json F) → List (PyStr × Json F)
  | [] => []
  | (k, v) :: d => (sanitizeTextForDb k, stripNullBytesDeep v) :: stripMembers d
end

/-- What is relied on of `JSONCodec`; a text that is not there is an error. -/
structure JSONCodec (F : Type) where
  dumps : Json F → Option PyStr
  escape : CodePoint → PyStr
  escape_nul : escape 0 = py "\\u0000"
  escape_surrogate : ∀ c, c.isSurrogate = true → escape c = [c]
  writes : ∀ v text, dumps v = some text → ∀ s ∈ v.strings, s.flatMap escape <:+: text

theorem escapeChar_nul : escapeChar 0 = py "\\u0000" := by decide

theorem escapeChar_of_isSurrogate {c : CodePoint} (hc : c.isSurrogate = true) : escapeChar c = [c] := by
  simp only [CodePoint.isSurrogate, Bool.and_eq_true, decide_eq_true_eq] at hc
  unfold escapeChar
  rw [if_neg, if_neg, if_neg, if_neg, if_neg, if_neg, if_neg, if_neg] <;> omega

theorem infix_of_emit [PyFloat F] {v : Json F} {text s : PyStr} (htext : some (v.emit true) = some text)
    (hs : s ∈ v.strings) : s.flatMap escapeChar <:+: text := by
  obtain rfl := Option.some.inj htext
  exact infix_emit true v s hs

/-- The codec of the standard library. -/
def stdlibCodec [PyFloat F] : JSONCodec F where
  dumps v := some (v.emit true)
  escape := escapeChar
  escape_nul := escapeChar_nul
  escape_surrogate _ hc := escapeChar_of_isSurrogate hc
  writes _ _ htext _ hs := infix_of_emit htext hs

/-- `sanitize_data_for_db(obj)`. -/
def sanitizeDataForDb (codec : JSONCodec F) : Json F → Json F
  | .str s => .str (sanitizeTextForDb s)
  | obj =>
    match codec.dumps obj with
    | some serialized =>
      if !contains (py "\\u0000") serialized && (encodeUtf8 serialized).isSome then obj
      else stripNullBytesDeep obj
    | none => stripNullBytesDeep obj

/-! ## What is left of a text -/

/-- A character that the database takes. -/
def isStorable (c : CodePoint) : Bool := c ≠ 0 && !c.isSurrogate

/-- A text without its NUL characters and its surrogates. -/
def storable (text : PyStr) : PyStr := text.filter isStorable

theorem storable_eq_self_iff {text : PyStr} : storable text = text ↔ ∀ c ∈ text, c ≠ 0 ∧ c.isSurrogate = false := by
  rw [storable, List.filter_eq_self]
  simp [isStorable]

theorem replace_nul (text : PyStr) : replace [0] [] text = text.filter fun c ↦ c ≠ 0 := by
  rw [replace_single]
  induction text with
  | nil => rfl
  | cons c text ih =>
    rw [List.flatMap_cons, ih]
    by_cases hc : c = 0 <;> simp [hc]

/-- Both ways through the function take the same characters out. -/
theorem sanitizeTextForDb_eq (text : PyStr) : sanitizeTextForDb text = storable text := by
  unfold sanitizeTextForDb
  split_ifs with hclean
  · rw [Bool.and_eq_true, Bool.not_eq_true', Bool.not_eq_true', List.any_eq_false, Bool.eq_false_iff, Ne,
      contains_iff, List.singleton_infix_iff] at hclean
    refine (storable_eq_self_iff.mpr fun c hc ↦ ⟨?_, ?_⟩).symm
    · rintro rfl
      exact hclean.1 hc
    · exact Bool.eq_false_iff.mpr (hclean.2 c hc)
  · rw [replace_nul, List.filter_filter, storable]
    refine List.filter_congr fun c _ ↦ ?_
    rw [isStorable, Bool.and_comm]

/-- The value with its strings and keys taken as the database takes them. -/
def cleaned (v : Json F) : Json F := v.mapStrings storable

/-! ## The recursive path -/

mutual
theorem stripNullBytesDeep_eq : ∀ v : Json F, (cleaned v).wf = true → stripNullBytesDeep v = cleaned v
  | .null, _ | .bool _, _ | .int _, _ | .float _, _ => rfl
  | .str s, _ => congrArg Json.str (sanitizeTextForDb_eq s)
  | .arr xs, h => congrArg Json.arr (stripElems_eq xs h)
  | .obj d, h => by
    obtain ⟨hkeys, hmembers⟩ := (wf_obj_iff (mapMembers storable d)).mp h
    rw [stripNullBytesDeep, stripMembers_eq d hmembers, dictUpdate_of_nodup hkeys]
    rfl
theorem stripElems_eq : ∀ xs : List (Json F), wfElems (mapElems storable xs) = true →
    stripElems xs = mapElems storable xs
  | [], _ => rfl
  | x :: xs, h => by
    rw [mapElems, wfElems, Bool.and_eq_true] at h
    rw [stripElems, stripNullBytesDeep_eq x h.1, stripElems_eq xs h.2]
    rfl
theorem stripMembers_eq : ∀ d : List (PyStr × Json F), (∀ p ∈ mapMembers storable d, p.2.wf = true) →
    stripMembers d = mapMembers storable d
  | [], _ => rfl
  | (k, v) :: d, h => by
    rw [stripMembers, sanitizeTextForDb_eq, stripNullBytesDeep_eq v (h _ List.mem_cons_self),
      stripMembers_eq d fun p hp ↦ h p (List.mem_cons_of_mem _ hp)]
    rfl
end

/-! ## The fast path -/

/-- Where the text of a value has no escaped NUL and can be encoded, each string of it can be stored. -/
theorem storable_of_written {codec : JSONCodec F} {v : Json F} {text : PyStr} (htext : codec.dumps v = some text)
    (hnul : contains (py "\\u0000") text = false) (hencodes : (encodeUtf8 text).isSome = true) :
    ∀ s ∈ v.strings, storable s = s := by
  intro s hs
  have hstands := codec.writes v text htext s hs
  have hpiece : ∀ c ∈ s, codec.escape c <:+: text := by
    intro c hc
    obtain ⟨before, behind, rfl⟩ := List.append_of_mem hc
    rw [List.flatMap_append, List.flatMap_cons] at hstands
    refine List.IsInfix.trans ?_ hstands
    exact (List.prefix_append _ _).isInfix.trans (List.suffix_append _ _).isInfix
  refine storable_eq_self_iff.mpr fun c hc ↦ ⟨?_, Bool.eq_false_iff.mpr fun hsurrogate ↦ ?_⟩
  · rintro rfl
    have hescaped := hpiece 0 hc
    rw [codec.escape_nul, ← contains_iff, hnul] at hescaped
    cases hescaped
  · have hmem := hpiece c hc
    rw [codec.escape_surrogate c hsurrogate, List.singleton_infix_iff] at hmem
    have hplain := (encodeUtf8_isSome text).mp hencodes c hmem
    rw [hsurrogate] at hplain
    cases hplain

/-- On either path what comes back is the value without NUL characters and surrogates, and otherwise as it
was. -/
theorem sanitizeDataForDb_eq (codec : JSONCodec F) (v : Json F) (hkeys : (cleaned v).wf = true) :
    sanitizeDataForDb codec v = cleaned v := by
  have hdeep := stripNullBytesDeep_eq v hkeys
  unfold sanitizeDataForDb
  split
  · next s => exact congrArg Json.str (sanitizeTextForDb_eq s)
  · split
    · next serialized htext =>
      split_ifs with hfast
      · rw [Bool.and_eq_true, Bool.not_eq_true'] at hfast
        exact (mapStrings_eq_self v (storable_of_written htext hfast.1 hfast.2)).symm
      · exact hdeep
    · exact hdeep

/-- A NUL in a key and a lone surrogate in a list. -/
theorem sanitizeDataForDb_nul :
    let _ : PyFloat FloatLit := (@Sop.textRuntime asciiTables).toPyFloat
    sanitizeDataForDb stdlibCodec (Json.obj (F := FloatLit) [([97, 0], .arr [.str [98, 0xD800, 99]])]) =
      .obj [([97], .arr [.str [98, 99]])] := by
  intro floats
  exact sanitizeDataForDb_eq stdlibCodec (Json.obj [([97, 0], .arr [.str [98, 0xD800, 99]])]) (by decide)

end FourCE.Storage

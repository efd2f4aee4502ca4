import FourCE.Audit.Trail
import FourCE.Python.JsonRoundTrip

/-!
# An interpreter to run the trail on

`json.loads` as the scanner of this development, which inverts `json.dumps`, and in place of
SHA-256 a function that spells its input out in hexadecimal behind a 1: it has no collisions and
never yields the genesis string.
-/

namespace FourCE.Audit

open FourCE.Python

/-! ## Floats by their text -/

/-- The integer a numeral stands for, when its fraction is zero and it has no exponent. -/
def numeralInt (n : Numeral) : Option ℤ :=
  if n.exp.isNone && (n.frac.all fun d ↦ d.toList.all (· = 0)) then
    some (if n.neg then -n.int else n.int)
  else none

instance : PyFloat FloatLit where
  lit := id
  ofLit := id
  ofLit_lit _ := rfl
  eqInt
    | .num n, i => numeralInt n = some i
    | _, _ => false
  eqInt_unique x m n hm hn := by
    cases x with
    | nan => exact absurd hm (by simp)
    | inf neg => exact absurd hm (by simp)
    | num x => exact Option.some.inj ((of_decide_eq_true hm).symm.trans (of_decide_eq_true hn))

/-! ## Reading -/

section

variable {F : Type} [PyFloat F]

/-- `json.loads` on the bytes of a line. -/
def loadsBytes (b : Bytes) : Except PyError (Value F) :=
  match decodeUtf8 b with
  | none => .error (.valueError (py "invalid utf-8"))
  | some s => match loads s with
    | none => .error (.valueError (py "not JSON"))
    | some v => if h : v.wf = true then .ok ⟨v, h⟩ else .error (.valueError (py "not JSON"))

theorem loadsBytes_of_loads {b : Bytes} {s : PyStr} {v : Json F} (hb : decodeUtf8 b = some s)
    (hs : loads s = some v) (hv : v.wf = true) : loadsBytes b = .ok ⟨v, hv⟩ := by
  simp [loadsBytes, hb, hs, hv]

theorem loadsInvertsDumps_loadsBytes : LoadsInvertsDumps (F := F) loadsBytes := by
  intro v b hb newline hnewline
  have hspace : ∃ w, encodeUtf8 w = some newline ∧ ∀ c ∈ w, isSpace c = true := by
    rcases hnewline with rfl | rfl
    · exact ⟨[], rfl, by simp⟩
    · exact ⟨[10], rfl, by simp [isSpace]⟩
  obtain ⟨w, hw, hspace⟩ := hspace
  have hdecode := decodeUtf8_encodeUtf8 (encodeUtf8_append hb hw)
  exact ⟨_, loadsBytes_of_loads hdecode (loads_dumps v.wf hspace) (wf_sortKeys v.json v.wf), rfl⟩

end

/-! ## Hashing -/

def spellOut (b : Bytes) : List (Fin 16) :=
  1 :: b.flatMap fun x ↦ [⟨x.toNat / 16 % 16, by omega⟩, ⟨x.toNat % 16, by omega⟩]

theorem hexChar_injective : Function.Injective hexChar := by
  intro m n
  revert m n
  decide

theorem spellOut_injective : Function.Injective spellOut := by
  intro a b h
  have htail := (List.cons.inj h).2
  induction a generalizing b with
  | nil =>
    cases b with
    | nil => rfl
    | cons y b => exact absurd htail (by simp)
  | cons x a ih =>
    cases b with
    | nil => exact absurd htail (by simp)
    | cons y b =>
      simp only [List.flatMap_cons, List.cons_append, List.nil_append, List.cons.injEq,
        Fin.mk.injEq] at htail
      obtain ⟨hhigh, hlow, hrest⟩ := htail
      have hx := x.toNat_lt
      have hy := y.toNat_lt
      have hxy : x = y := UInt8.toNat_inj.mp (by omega)
      rw [hxy, ih (congrArg (1 :: ·) hrest) hrest]

/-- The interpreter of the examples; the trail asks for nothing else on what it wrote itself. -/
def sampleInterp : Interp FloatLit where
  sha256 := spellOut
  loads := loadsBytes
  intOther _ := .error (.typeError (py "int() argument"))
  strOther _ := []

theorem hexdigest_sample_injective : Function.Injective (hexdigest sampleInterp) :=
  (List.map_injective_iff.mpr hexChar_injective).comp spellOut_injective

theorem hexdigest_sample_ne_genesis (b : Bytes) : hexdigest sampleInterp b ≠ GENESIS := by
  intro h
  have hhead := congrArg List.head? h
  exact absurd hhead (by simp [hexdigest, sampleInterp, spellOut, GENESIS, hexChar])

end FourCE.Audit

import Mathlib.Data.List.Basic
import Mathlib.Tactic.Common

/-!
# Python strings and their UTF-8 encoding

A Python `str` is a sequence of code points in which lone surrogates may occur; `json.loads`
produces them from an escape such as `\ud800`, and `str.encode("utf-8")` refuses them.  Code
points below are therefore all numbers below `0x110000`, and encoding is partial.  Decoding is
that of `bytes.decode("utf-8", "surrogatepass")`, which `json.loads` uses on bytes; it inverts
encoding wherever encoding succeeds.
-/

namespace FourCE.Python

abbrev CodePoint := Fin 0x110000

abbrev PyStr := List CodePoint

abbrev Bytes := List UInt8

/-! Instances that every numeral and every membership test of the model asks for. -/

instance (priority := 2000) CodePoint.neZero : @NeZero ℕ Zero.ofOfNat0 0x110000 := ⟨by decide⟩

instance (priority := 2000) CodePoint.lawfulBEq : LawfulBEq CodePoint := inferInstance

instance (priority := 2000) PyStr.lawfulBEq : LawfulBEq PyStr := inferInstance

instance (priority := 2000) Digit.neZero : @NeZero ℕ Zero.ofOfNat0 10 := ⟨by decide⟩

def CodePoint.ofChar (c : Char) : CodePoint :=
  ⟨c.toNat, by
    have h := c.valid
    simp only [UInt32.isValidChar, Nat.isValidChar, Char.toNat] at h ⊢
    omega⟩

/-- A string literal as Python holds it.  Its characters come with it, found when the literal is
elaborated, so that evaluating it decodes no bytes. -/
def py (s : String) {l : List Char} (_h : s = String.ofList l := by rfl) : PyStr :=
  l.map CodePoint.ofChar

/-- A code point with no UTF-8 encoding of its own. -/
def CodePoint.isSurrogate (c : CodePoint) : Bool := 0xD800 ≤ c.val && c.val < 0xE000

def encodeChar (c : CodePoint) : Bytes :=
  if c.val < 0x80 then [.ofNat c.val]
  else if c.val < 0x800 then [.ofNat (0xC0 + c.val / 64), .ofNat (0x80 + c.val % 64)]
  else if c.val < 0x10000 then
    [.ofNat (0xE0 + c.val / 4096), .ofNat (0x80 + c.val / 64 % 64), .ofNat (0x80 + c.val % 64)]
  else
    [.ofNat (0xF0 + c.val / 262144), .ofNat (0x80 + c.val / 4096 % 64),
      .ofNat (0x80 + c.val / 64 % 64), .ofNat (0x80 + c.val % 64)]

/-- `str.encode("utf-8")`; `none` is the `UnicodeEncodeError` a lone surrogate raises. -/
def encodeUtf8 : PyStr → Option Bytes
  | [] => some []
  | c :: s => if c.isSurrogate then none else (encodeUtf8 s).map (encodeChar c ++ ·)

def isTail (b : UInt8) : Bool := 0x80 ≤ b.toNat && b.toNat < 0xC0

/-- The code point `n`, when it is one and needed this many bytes. -/
def inRange (low n : ℕ) : Option CodePoint :=
  if h : n < 0x110000 then if low ≤ n then some ⟨n, h⟩ else none else none

/-- `bytes.decode("utf-8", "surrogatepass")`; `none` is its `UnicodeDecodeError`. -/
def decodeUtf8 : Bytes → Option PyStr
  | [] => some []
  | a :: rest =>
    if a.toNat < 0x80 then do
      return (← inRange 0 a.toNat) :: (← decodeUtf8 rest)
    else if a.toNat < 0xC0 then none
    else match rest with
      | [] => none
      | b :: rest =>
        if !isTail b then none
        else if a.toNat < 0xE0 then do
          return (← inRange 0x80 ((a.toNat - 0xC0) * 64 + (b.toNat - 0x80))) :: (← decodeUtf8 rest)
        else match rest with
          | [] => none
          | c :: rest =>
            if !isTail c then none
            else if a.toNat < 0xF0 then do
              return (← inRange 0x800 ((a.toNat - 0xE0) * 4096 + (b.toNat - 0x80) * 64 +
                (c.toNat - 0x80))) :: (← decodeUtf8 rest)
            else match rest with
              | [] => none
              | d :: rest =>
                if !isTail d then none
                else do
                  return (← inRange 0x10000 ((a.toNat - 0xF0) * 262144 + (b.toNat - 0x80) * 4096 +
                    (c.toNat - 0x80) * 64 + (d.toNat - 0x80))) :: (← decodeUtf8 rest)

@[simp]
theorem encodeUtf8_nil : encodeUtf8 [] = some [] := rfl

theorem encodeUtf8_cons (c : CodePoint) (s : PyStr) :
    encodeUtf8 (c :: s) =
      if c.isSurrogate then none else (encodeUtf8 s).map (encodeChar c ++ ·) := rfl

/-- Encoding fails exactly on the strings that hold a lone surrogate. -/
theorem encodeUtf8_isSome (s : PyStr) :
    (encodeUtf8 s).isSome ↔ ∀ c ∈ s, c.isSurrogate = false := by
  induction s with
  | nil => simp
  | cons c s ih =>
    rw [encodeUtf8_cons]
    by_cases hc : c.isSurrogate
    · simp [hc]
    · simp [hc, ih]

theorem encodeUtf8_append {s t : PyStr} {a b : Bytes} (hs : encodeUtf8 s = some a)
    (ht : encodeUtf8 t = some b) : encodeUtf8 (s ++ t) = some (a ++ b) := by
  induction s generalizing a with
  | nil => simp only [encodeUtf8_nil, Option.some.injEq] at hs; simp [← hs, ht]
  | cons c s ih =>
    rw [encodeUtf8_cons] at hs
    by_cases hc : c.isSurrogate
    · simp [hc] at hs
    · simp only [hc, Bool.false_eq_true, if_false, Option.map_eq_some_iff] at hs
      obtain ⟨tail, htail, rfl⟩ := hs
      rw [List.cons_append, encodeUtf8_cons, ih htail]
      simp [hc]

section RoundTrip

theorem toNat_ofNat_of_lt {n : ℕ} (h : n < 256) : (UInt8.ofNat n).toNat = n := by
  simp [Nat.mod_eq_of_lt h]

theorem inRange_eq {low : ℕ} {c : CodePoint} (h : low ≤ c.val) : inRange low c.val = some c := by
  simp [inRange, h]

theorem isTail_ofNat {n : ℕ} (h : n < 64) : isTail (UInt8.ofNat (0x80 + n)) = true := by
  rw [isTail, toNat_ofNat_of_lt (by omega)]
  simp only [Bool.and_eq_true, decide_eq_true_eq]
  omega

/-- One encoded code point is read back whole, whatever follows it. -/
theorem decodeUtf8_encodeChar (c : CodePoint) (rest : Bytes) :
    decodeUtf8 (encodeChar c ++ rest) = (decodeUtf8 rest).map (c :: ·) := by
  have hc := c.isLt
  have tail (k : ℕ) : isTail (UInt8.ofNat (0x80 + k % 64)) = true :=
    isTail_ofNat (Nat.mod_lt _ (by omega))
  have value (k : ℕ) : (UInt8.ofNat (0x80 + k % 64)).toNat = 0x80 + k % 64 :=
    toNat_ofNat_of_lt (by omega)
  unfold encodeChar
  split_ifs with h1 h2 h3
  · have ha : (UInt8.ofNat c.val).toNat = c.val := toNat_ofNat_of_lt (by omega)
    rw [List.singleton_append, decodeUtf8.eq_def (_ :: _)]
    simp only [ha]
    rw [if_pos h1, inRange_eq (Nat.zero_le _)]
    cases decodeUtf8 rest <;> rfl
  · have ha : (UInt8.ofNat (0xC0 + c.val / 64)).toNat = 0xC0 + c.val / 64 :=
      toNat_ofNat_of_lt (by omega)
    have hv : (0xC0 + c.val / 64 - 0xC0) * 64 + (0x80 + c.val % 64 - 0x80) = c.val := by omega
    simp only [List.cons_append, List.nil_append]
    rw [decodeUtf8.eq_def (_ :: _)]
    simp only [ha, tail, value, Bool.not_true, Bool.false_eq_true, if_false]
    rw [if_neg (by omega), if_neg (by omega)]
    rw [if_pos (by omega), hv, inRange_eq (by omega)]
    cases decodeUtf8 rest <;> rfl
  · have ha : (UInt8.ofNat (0xE0 + c.val / 4096)).toNat = 0xE0 + c.val / 4096 :=
      toNat_ofNat_of_lt (by omega)
    have hv : (0xE0 + c.val / 4096 - 0xE0) * 4096 + (0x80 + c.val / 64 % 64 - 0x80) * 64 +
        (0x80 + c.val % 64 - 0x80) = c.val := by omega
    simp only [List.cons_append, List.nil_append]
    rw [decodeUtf8.eq_def (_ :: _)]
    simp only [ha, tail, value, Bool.not_true, Bool.false_eq_true, if_false]
    rw [if_neg (by omega), if_neg (by omega)]
    rw [if_neg (by omega), if_pos (by omega), hv, inRange_eq (by omega)]
    cases decodeUtf8 rest <;> rfl
  · have ha : (UInt8.ofNat (0xF0 + c.val / 262144)).toNat = 0xF0 + c.val / 262144 :=
      toNat_ofNat_of_lt (by omega)
    have hv : (0xF0 + c.val / 262144 - 0xF0) * 262144 + (0x80 + c.val / 4096 % 64 - 0x80) * 4096 +
        (0x80 + c.val / 64 % 64 - 0x80) * 64 + (0x80 + c.val % 64 - 0x80) = c.val := by omega
    simp only [List.cons_append, List.nil_append]
    rw [decodeUtf8.eq_def (_ :: _)]
    simp only [ha, tail, value, Bool.not_true, Bool.false_eq_true, if_false]
    rw [if_neg (by omega), if_neg (by omega)]
    rw [if_neg (by omega), if_neg (by omega), hv, inRange_eq (by omega)]
    cases decodeUtf8 rest <;> rfl

theorem decodeUtf8_encodeUtf8_append {s : PyStr} {b : Bytes} (h : encodeUtf8 s = some b)
    (rest : Bytes) : decodeUtf8 (b ++ rest) = (decodeUtf8 rest).map (s ++ ·) := by
  induction s generalizing b with
  | nil =>
    simp only [encodeUtf8_nil, Option.some.injEq] at h
    subst h
    simp
  | cons c s ih =>
    rw [encodeUtf8_cons] at h
    by_cases hc : c.isSurrogate
    · simp [hc] at h
    · simp only [hc, Bool.false_eq_true, if_false, Option.map_eq_some_iff] at h
      obtain ⟨tail, htail, rfl⟩ := h
      rw [List.append_assoc, decodeUtf8_encodeChar, ih htail, Option.map_map]
      rfl

theorem decodeUtf8_encodeUtf8 {s : PyStr} {b : Bytes} (h : encodeUtf8 s = some b) :
    decodeUtf8 b = some s := by
  have hround := decodeUtf8_encodeUtf8_append h []
  simpa [decodeUtf8] using hround

end RoundTrip

/-- A byte below `0x80` stands only for the code point of its own number. -/
theorem mem_encodeChar_of_lt {c : CodePoint} {b : UInt8} (h : b ∈ encodeChar c)
    (hb : b.toNat < 0x80) : b.toNat = c.val := by
  have hc := c.isLt
  have low {n : ℕ} (hn : n < 256) (he : b = UInt8.ofNat n) : b.toNat = n := by
    rw [he, toNat_ofNat_of_lt hn]
  unfold encodeChar at h
  split_ifs at h with h1 h2 h3
  · rw [List.mem_singleton] at h
    exact low (by omega) h
  · simp only [List.mem_cons, List.not_mem_nil, or_false] at h
    rcases h with h | h <;> have := low (by omega) h <;> omega
  · simp only [List.mem_cons, List.not_mem_nil, or_false] at h
    rcases h with h | h | h <;> have := low (by omega) h <;> omega
  · simp only [List.mem_cons, List.not_mem_nil, or_false] at h
    rcases h with h | h | h | h <;> have := low (by omega) h <;> omega

theorem mem_encodeUtf8_of_lt {s : PyStr} {a : Bytes} (h : encodeUtf8 s = some a) {b : UInt8}
    (hb : b ∈ a) (hlow : b.toNat < 0x80) : ∃ c ∈ s, c.val = b.toNat := by
  induction s generalizing a with
  | nil =>
    simp only [encodeUtf8_nil, Option.some.injEq] at h
    simp [← h] at hb
  | cons c s ih =>
    rw [encodeUtf8_cons] at h
    by_cases hc : c.isSurrogate
    · simp [hc] at h
    · simp only [hc, Bool.false_eq_true, if_false, Option.map_eq_some_iff] at h
      obtain ⟨tail, htail, rfl⟩ := h
      rcases List.mem_append.mp hb with hb | hb
      · exact ⟨c, List.mem_cons_self, (mem_encodeChar_of_lt hb hlow).symm⟩
      · obtain ⟨d, hd, he⟩ := ih htail hb
        exact ⟨d, List.mem_cons_of_mem _ hd, he⟩

end FourCE.Python

import FourCE.Python.Float
import FourCE.Python.Text

/-!
# Truncating template variables

`replace_prompt_variable`, `truncate_content` and `replace_messages_variable` of `utils/task.py`.  A
suffix is written as a slice from a negative index on, which from index 0 on is everything.
-/

namespace FourCE.Templates

open FourCE.Python

/-! ## Slices -/

variable {α : Type}

/-- The place of an index in a sequence, from its end where the index is negative. -/
def indexIn (l : List α) (i : ℤ) : ℕ := (if 0 ≤ i then i else l.length + i).toNat

/-- `l[:i]`. -/
def sliceTo (l : List α) (i : ℤ) : List α := l.take (indexIn l i)

/-- `l[i:]`. -/
def sliceFrom (l : List α) (i : ℤ) : List α := l.drop (indexIn l i)

/-- The last `n` elements, or all if there are fewer. -/
def lastOf (n : ℕ) (l : List α) : List α := l.drop (l.length - n)

theorem sliceTo_natCast (l : List α) (n : ℕ) : sliceTo l n = l.take n := by
  unfold sliceTo indexIn
  rw [if_pos (Int.natCast_nonneg n), Int.toNat_natCast]

/-- From a negative index on there are as many elements as it says. -/
theorem sliceFrom_neg {l : List α} {n : ℕ} (hn : 0 < n) : sliceFrom l (-n) = lastOf n l := by
  unfold sliceFrom indexIn lastOf
  rw [if_neg (by omega), show ((l.length : ℤ) + -n).toNat = l.length - n by omega]

theorem sliceFrom_zero (l : List α) : sliceFrom l (-(0 : ℕ)) = l := by
  unfold sliceFrom indexIn
  simp

theorem lastOf_suffix (n : ℕ) (l : List α) : lastOf n l <:+ l := List.drop_suffix _ _

theorem length_lastOf (n : ℕ) (l : List α) : (lastOf n l).length = min n l.length := by
  unfold lastOf
  rw [List.length_drop]
  omega

@[simp]
theorem lastOf_zero (l : List α) : lastOf 0 l = [] := by
  unfold lastOf
  simp

/-! ## The prompt -/

/-- What the groups of a match of a prompt variable are replaced with; `full_match` is in small letters. -/
def promptReplacement (prompt full_match : PyStr) [Unicode] (start_length end_length middle_length : Option PyStr) :
    PyStr :=
  if full_match = py "\x7b\x7bprompt\x7d\x7d" then prompt
  else match start_length, end_length, middle_length with
    | some start_length, _, _ => sliceTo prompt (intOf start_length)
    | none, some end_length, _ => sliceFrom prompt (-(intOf end_length : ℤ))
    | none, none, some middle_length =>
      let middle_length := intOf middle_length
      if prompt.length ≤ middle_length then prompt
      else sliceTo prompt ((middle_length + 1) / 2 : ℕ) ++ py "..." ++
        sliceFrom prompt (-(middle_length / 2 : ℕ))
    | none, none, none => []

/-! ## The content of messages -/

/-- `truncate_content`; every mode but `start` and `end` is `middletruncate`. -/
def truncateContent (content : PyStr) (max_chars : ℤ) (mode : PyStr) : PyStr :=
  if max_chars ≤ 0 then []
  else if content.length ≤ max_chars then content
  else if mode = py "start" then sliceTo content max_chars
  else if mode = py "end" then sliceFrom content (-max_chars)
  else sliceTo content (max_chars / 2) ++ py "..." ++ sliceFrom content (-(max_chars - max_chars / 2))

/-- An item of a message's content: one with a type and a text, each there or not, or another. -/
inductive ContentItem
  | dict (type : Option PyStr) (text : Option (Option PyStr))
  | other

/-- The content of a message: a text, items, or nothing of these. -/
inductive Content
  | str (s : PyStr)
  | list (items : List ContentItem)
  | none

/-- An item of a message's output, with the texts of its parts. -/
structure OutputItem where
  type : Option PyStr
  parts : List (Option PyStr)

structure Message where
  role : PyStr
  content : Content
  output : List OutputItem

/-- `truncate_content` of an item's text, where that may be null. -/
def truncateText (text : Option PyStr) (max_chars : ℤ) (mode : PyStr) : Option PyStr :=
  if max_chars ≤ 0 then some [] else text.map fun text ↦ truncateContent text max_chars mode

def filterItem (max_chars : ℤ) (mode : PyStr) : ContentItem → ContentItem
  | .dict type text =>
    if type = some (py "text") then .dict type (some (truncateText (text.getD (some [])) max_chars mode))
    else .dict type text
  | .other => .other

def filterMessage (max_chars : ℤ) (mode : PyStr) (msg : Message) : Message :=
  { msg with content := match msg.content with
      | .str s => .str (truncateContent s max_chars mode)
      | .list items => .list (items.map (filterItem max_chars mode))
      | .none => .none }

section

variable [Unicode] [Casing]

/-- `apply_content_filter`; `filter_str` has a word, a colon and digits where it comes from a variable. -/
def applyContentFilter (messages : List Message) (filter_str : PyStr) : List Message :=
  match partition (py ":") filter_str with
  | none => messages
  | some (mode, count) =>
    if contains (py ":") count then messages
    else match decimals count with
      | none => messages
      | some _ =>
        let mode := Casing.lower mode
        if mode ∈ [py "middletruncate", py "start", py "end"] then
          messages.map (filterMessage (intOf count) mode)
        else messages

end

/-- `get_output_text`. -/
def getOutputText (output : List OutputItem) : PyStr :=
  let texts := (output.filter fun item ↦ item.type = some (py "message")).map fun item ↦
    (item.parts.filterMap id).flatten
  join (py "\n") (texts.filter fun text ↦ !text.isEmpty && !text.all isWhite)

def textOfItems : List ContentItem → Option (Option PyStr)
  | [] => none
  | .dict type text :: items => if type = some (py "text") then some (text.getD none) else textOfItems items
  | .other :: items => textOfItems items

/-- `get_content_from_message`. -/
def getContentFromMessage (message : Message) : Option PyStr :=
  let output_text := getOutputText message.output
  match message.content with
  | .str content =>
    if content ≠ [] then some content else some output_text
  | .list items =>
    match textOfItems items with
    | some text => text
    | none => if output_text ≠ [] then some output_text else none
  | .none => if output_text ≠ [] then some output_text else none

/-- `get_messages_content`; a content that is none reads `None`. -/
def getMessagesContent [Casing] (messages : List Message) : PyStr :=
  join (py "\n") (messages.map fun message ↦
    Casing.upper message.role ++ py ": " ++ (getContentFromMessage message).getD (py "None"))

/-- The messages that a variable selects by the numbers in it. -/
def selectedMessages [Unicode] (messages : List α) (start_length end_length middle_length : Option PyStr) :
    List α :=
  match start_length, end_length, middle_length with
  | some start_length, _, _ => sliceTo messages (intOf start_length)
  | none, some end_length, _ => sliceFrom messages (-(intOf end_length : ℤ))
  | none, none, some middle_length =>
    let mid := intOf middle_length
    if messages.length ≤ mid then messages
    else
      let half := mid / 2
      sliceTo messages half ++
        if mid % 2 = 0 then sliceFrom messages (-(half : ℤ)) else sliceFrom messages (-((half + 1 : ℕ) : ℤ))
  | none, none, none => messages

/-! ## What is kept -/

/-- A beginning and an end of a sequence that have `n` elements together, or all of it. -/
def Cut (n : ℕ) (l a b : List α) : Prop := a <+: l ∧ b <:+ l ∧ a.length + b.length = n

theorem cut_lastOf {n k m : ℕ} {l : List α} (hk : k ≤ l.length) (hm : m ≤ l.length) (hn : k + m = n) :
    Cut n l (l.take k) (lastOf m l) := by
  refine ⟨List.take_prefix _ _, lastOf_suffix _ _, ?_⟩
  rw [List.length_take, length_lastOf]
  omega

/-- At most `n` characters of a text: a beginning and an end of it, with dots between or without. -/
def KeepsAtMost (n : ℕ) (content kept : PyStr) : Prop :=
  ∃ a b m, m ≤ n ∧ m ≤ content.length ∧ Cut m content a b ∧ (kept = a ++ b ∨ kept = a ++ py "..." ++ b)

theorem truncateContent_keeps (content : PyStr) (n : ℕ) (mode : PyStr) :
    KeepsAtMost n content (truncateContent content n mode) := by
  unfold truncateContent
  rcases Nat.eq_zero_or_pos n with rfl | hpos
  · rw [if_pos (by simp)]
    exact ⟨[], [], 0, le_rfl, Nat.zero_le _, ⟨List.nil_prefix, List.nil_suffix, rfl⟩, Or.inl rfl⟩
  · rw [if_neg (by omega)]
    have hlength : ((content.length : ℤ) ≤ n) = (content.length ≤ n) := propext Nat.cast_le
    simp only [hlength]
    split_ifs with hshort hstart hend
    · exact ⟨content, [], content.length, hshort, le_rfl, ⟨List.prefix_rfl, List.nil_suffix, rfl⟩,
        Or.inl (List.append_nil _).symm⟩
    · refine ⟨content.take n, [], n, le_rfl, by omega, ⟨List.take_prefix _ _, List.nil_suffix, ?_⟩, Or.inl ?_⟩
      · rw [List.length_take, List.length_nil]
        omega
      · rw [sliceTo_natCast, List.append_nil]
    · refine ⟨[], lastOf n content, n, le_rfl, by omega, ⟨List.nil_prefix, lastOf_suffix _ _, ?_⟩, Or.inl ?_⟩
      · rw [length_lastOf, List.length_nil]
        omega
      · rw [sliceFrom_neg hpos, List.nil_append]
    · have hhalf : ((n : ℤ) / 2) = ((n / 2 : ℕ) : ℤ) := by omega
      have hrest : -((n : ℤ) - n / 2) = -((n - n / 2 : ℕ) : ℤ) := by omega
      refine ⟨content.take (n / 2), lastOf (n - n / 2) content, n, le_rfl, by omega,
        cut_lastOf (by omega) (by omega) (by omega), Or.inr ?_⟩
      rw [hrest, hhalf, sliceTo_natCast, sliceFrom_neg (by omega)]

end FourCE.Templates

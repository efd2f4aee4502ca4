import FourCE.Library.Segments
import FourCE.Python.Str
import Mathlib.Data.Int.Notation

/-!
# Lines of a stream

`stream_chunks_handler` of `utils/misc.py`: the lines of a stream whose bytes arrive in chunks, apart from
those that are too long to be buffered.
-/

namespace FourCE.Streams

open FourCE.Library FourCE.Python

/-- `max_buffer_size`, where `none` is infinite.  A setting that is not positive counts as unset. -/
def maxBufferSize : Option ℤ → Option ℕ
  | none => none
  | some size => if size ≤ 0 then none else some size.toNat

/-- `length > max_buffer_size`. -/
def exceeds (maxBufferSize : Option ℕ) (length : ℕ) : Bool :=
  match maxBufferSize with
  | none => false
  | some size => size < length

/-- What the generator holds between two chunks. -/
structure State where
  buffer : Bytes
  droppingLineTail : Bool

/-- The loop over completed lines: what it yields, and whether the tail of a line is still dropped. -/
def yieldLines (maxBufferSize : Option ℕ) : Bool → List Bytes → List Bytes × Bool
  | droppingLineTail, [] => ([], droppingLineTail)
  | true, _ :: lines => yieldLines maxBufferSize false lines
  | false, line :: lines =>
    let later := yieldLines maxBufferSize false lines
    if exceeds maxBufferSize line.length then later else ((line ++ [10]) :: later.1, later.2)

/-- One chunk: what is yielded for it, and the state behind it. -/
def receive (maxBufferSize : Option ℕ) (s : State) (data : Bytes) : List Bytes × State :=
  if data.isEmpty then ([], s)
  else
    let buffer := s.buffer ++ data
    let (yielded, s) :=
      if 10 ∈ data then
        let (yielded, droppingLineTail) := yieldLines maxBufferSize s.droppingLineTail (ended 10 buffer)
        (yielded, State.mk (openRest 10 buffer) droppingLineTail)
      else ([], ⟨buffer, s.droppingLineTail⟩)
    if exceeds maxBufferSize s.buffer.length then (yielded, ⟨[], true⟩) else (yielded, s)

/-- The chunks one after the other, and what is left behind the last. -/
def yieldSafeStreamChunks (maxBufferSize : Option ℕ) : State → List Bytes → List Bytes
  | s, [] => if !s.buffer.isEmpty && !s.droppingLineTail then [s.buffer] else []
  | s, data :: chunks =>
    let (yielded, s) := receive maxBufferSize s data
    yielded ++ yieldSafeStreamChunks maxBufferSize s chunks

/-- `stream_chunks_handler` with `CHAT_STREAM_RESPONSE_CHUNK_MAX_BUFFER_SIZE`. -/
def streamChunksHandler (setting : Option ℤ) (chunks : List Bytes) : List Bytes :=
  yieldSafeStreamChunks (maxBufferSize setting) ⟨[], false⟩ chunks

/-! ## Lines that fit -/

/-- Lines of a fitting length, each with its newline. -/
def fittingLines (fits : ℕ → Bool) (lines : List Bytes) : List Bytes :=
  (lines.filter fun line ↦ fits line.length).map (· ++ [10])

/-- The lines of a fitting length, and the rest if it is there and fits. -/
def linesWithin (fits : ℕ → Bool) (bytes : Bytes) : List Bytes :=
  let rest := openRest 10 bytes
  fittingLines fits (ended 10 bytes) ++ if !rest.isEmpty && fits rest.length then [rest] else []

/-- Whether a line is short enough: every line is, where no positive limit is set. -/
def fits (setting : Option ℤ) (length : ℕ) : Bool :=
  match setting with
  | none => true
  | some size => size ≤ 0 || length ≤ size

theorem fits_eq (setting : Option ℤ) (length : ℕ) : fits setting length = !exceeds (maxBufferSize setting) length := by
  rcases setting with - | size
  · rfl
  · unfold fits maxBufferSize
    by_cases hsize : size ≤ 0
    · simp [hsize, exceeds]
    · simp only [hsize, if_false, exceeds, decide_false, Bool.false_or, ← decide_not, decide_eq_decide]
      omega

theorem exceeds_of_le {maxBufferSize : Option ℕ} {m n : ℕ} (hm : exceeds maxBufferSize m = true) (hmn : m ≤ n) :
    exceeds maxBufferSize n = true := by
  rcases maxBufferSize with - | size
  · cases hm
  · rw [exceeds, decide_eq_true_eq] at hm ⊢
    exact Nat.lt_of_lt_of_le hm hmn

section Run

variable {size : Option ℕ} {seen data : Bytes} {s : State}

/-- What the state says of the bytes that were seen: the line that is open is buffered while it fits, and
dropped from then on. -/
structure State.Holds (s : State) (size : Option ℕ) (seen : Bytes) : Prop where
  noNewline : 10 ∉ s.buffer
  buffered : s.droppingLineTail = false → s.buffer = openRest 10 seen
  fits : s.droppingLineTail = false → exceeds size s.buffer.length = false
  tooLong : s.droppingLineTail = true → exceeds size (openRest 10 seen).length = true

theorem yieldLines_false (lines : List Bytes) :
    yieldLines size false lines = (fittingLines (fun n ↦ !exceeds size n) lines, false) := by
  induction lines with
  | nil => rfl
  | cons line lines ih =>
    rw [yieldLines, ih]
    by_cases hline : exceeds size line.length <;> simp [hline, fittingLines]

/-- The lines that a chunk ends, the first of which may be too long already. -/
theorem yieldLines_ended (hs : s.Holds size seen) (hdata : 10 ∈ data) :
    yieldLines size s.droppingLineTail (ended 10 (s.buffer ++ data)) =
      (fittingLines (fun n ↦ !exceeds size n) (ended 10 (openRest 10 seen ++ data)), false) := by
  obtain ⟨line, lines, hlines⟩ := ended_of_mem hdata
  rw [(hlines s.buffer hs.noNewline).1, (hlines (openRest 10 seen) (notMem_openRest seen)).1]
  cases hdropping : s.droppingLineTail with
  | false => rw [yieldLines_false, hs.buffered hdropping]
  | true =>
    have hlong : exceeds size (openRest 10 seen ++ line).length = true :=
      exceeds_of_le (hs.tooLong hdropping) (by simp)
    rw [yieldLines, yieldLines_false, fittingLines, fittingLines, List.filter_cons_of_neg (by rw [hlong]; exact nofun)]

/-- A buffer that grew too large is dropped, together with what is still to come of its line. -/
theorem holds_trim {dropping : Bool} {buffer : Bytes} (hline : 10 ∉ buffer)
    (hbuffered : dropping = false → buffer = openRest 10 seen)
    (hlong : dropping = true → exceeds size (openRest 10 seen).length = true) :
    (if exceeds size buffer.length then State.mk [] true else ⟨buffer, dropping⟩).Holds size seen := by
  split_ifs with hexceeds
  · refine ⟨List.not_mem_nil, nofun, nofun, fun _ ↦ ?_⟩
    cases hdropping : dropping with
    | false => rwa [← hbuffered hdropping]
    | true => exact hlong hdropping
  · exact ⟨hline, hbuffered, fun _ ↦ Bool.eq_false_iff.mpr hexceeds, hlong⟩

/-- A chunk yields the fitting lines that it ends, whatever was dropped of the first of them. -/
theorem receive_spec (hs : s.Holds size seen) (data : Bytes) :
    (receive size s data).1 = fittingLines (fun n ↦ !exceeds size n) (ended 10 (openRest 10 seen ++ data)) ∧
      (receive size s data).2.Holds size (seen ++ data) := by
  have hrest := @openRest_append _ _ 10 seen data
  unfold receive
  by_cases hempty : data = []
  · subst hempty
    simp only [List.isEmpty_nil, if_true, List.append_nil]
    exact ⟨by rw [ended_of_notMem (notMem_openRest seen)]; rfl, hs⟩
  · simp only [List.isEmpty_iff, hempty, if_false]
    by_cases hdata : 10 ∈ data
    · obtain ⟨line, lines, hlines⟩ := ended_of_mem hdata
      have hsame : openRest 10 (s.buffer ++ data) = openRest 10 (seen ++ data) := by
        rw [hrest, (hlines _ hs.noNewline).2, (hlines _ (notMem_openRest seen)).2]
      have htrim := @holds_trim size (seen ++ data) false _
        (notMem_openRest (s.buffer ++ data)) (fun _ ↦ hsame) nofun
      simp only [hdata, if_true, yieldLines_ended hs hdata]
      split_ifs with hexceeds
      · rw [if_pos hexceeds] at htrim
        exact ⟨rfl, htrim⟩
      · rw [if_neg hexceeds] at htrim
        exact ⟨rfl, htrim⟩
    · have hopen : 10 ∉ openRest 10 seen ++ data := by
        rw [List.mem_append]
        exact not_or.mpr ⟨notMem_openRest seen, hdata⟩
      rw [openRest_of_notMem hopen] at hrest
      have hnone : 10 ∉ s.buffer ++ data := by
        rw [List.mem_append]
        exact not_or.mpr ⟨hs.noNewline, hdata⟩
      have htrim := @holds_trim size (seen ++ data) s.droppingLineTail _ hnone
        (fun h ↦ by rw [hrest, hs.buffered h])
        (fun h ↦ by rw [hrest]; exact exceeds_of_le (hs.tooLong h) (by simp))
      rw [ended_of_notMem hopen]
      simp only [hdata, if_false]
      split_ifs with hexceeds
      · rw [if_pos hexceeds] at htrim
        exact ⟨rfl, htrim⟩
      · rw [if_neg hexceeds] at htrim
        exact ⟨rfl, htrim⟩

theorem fittingLines_append (fits : ℕ → Bool) (lines lines' : List Bytes) :
    fittingLines fits (lines ++ lines') = fittingLines fits lines ++ fittingLines fits lines' := by
  rw [fittingLines, List.filter_append, List.map_append]
  rfl

/-- From any state the chunks that follow yield what is still to come of the lines. -/
theorem yieldSafeStreamChunks_eq (hs : s.Holds size seen) (chunks : List Bytes) :
    fittingLines (fun n ↦ !exceeds size n) (ended 10 seen) ++ yieldSafeStreamChunks size s chunks =
      linesWithin (fun n ↦ !exceeds size n) (seen ++ chunks.flatten) := by
  induction chunks generalizing s seen with
  | nil =>
    rw [List.flatten_nil, List.append_nil, yieldSafeStreamChunks, linesWithin]
    congr 1
    cases hdropping : s.droppingLineTail with
    | false => simp [← hs.buffered hdropping, hs.fits hdropping]
    | true => simp [hs.tooLong hdropping]
  | cons data chunks ih =>
    obtain ⟨hyield, hs'⟩ := receive_spec hs data
    calc
      _ = (fittingLines (fun n ↦ !exceeds size n) (ended 10 seen) ++ (receive size s data).1) ++
            yieldSafeStreamChunks size (receive size s data).2 chunks := by
        rw [yieldSafeStreamChunks, List.append_assoc]
      _ = fittingLines (fun n ↦ !exceeds size n) (ended 10 (seen ++ data)) ++
            yieldSafeStreamChunks size (receive size s data).2 chunks := by
        rw [hyield, ended_append seen data, fittingLines_append]
      _ = linesWithin (fun n ↦ !exceeds size n) (seen ++ (data :: chunks).flatten) := by
        rw [ih hs', List.append_assoc]
        rfl

end Run

/-- However the bytes are cut into chunks, the lines that fit are yielded, and the rest if it fits. -/
theorem streamChunksHandler_eq (setting : Option ℤ) (chunks : List Bytes) :
    streamChunksHandler setting chunks = linesWithin (fits setting) chunks.flatten := by
  have hstart : State.Holds ⟨[], false⟩ (maxBufferSize setting) [] := by
    refine ⟨List.not_mem_nil, fun _ ↦ rfl, fun _ ↦ ?_, nofun⟩
    cases maxBufferSize setting <;> rfl
  have hfits : (fun n ↦ !exceeds (maxBufferSize setting) n) = fits setting := by
    funext n
    exact (fits_eq setting n).symm
  rw [← hfits, streamChunksHandler]
  exact yieldSafeStreamChunks_eq hstart chunks

/-- A limit of zero lets every line through. -/
theorem zero_unlimited : ¬ ∀ chunks, streamChunksHandler (some 0) chunks =
    linesWithin (fun length ↦ (length : ℤ) ≤ 0) chunks.flatten := by
  intro hall
  have hline := hall [[97, 10]]
  revert hline
  decide

end FourCE.Streams

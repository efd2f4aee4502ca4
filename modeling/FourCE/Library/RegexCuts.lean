import FourCE.Library.RegexFirst

/-!
# A text cut at its matches

For an expression without tests a match depends on nothing in front of it.  A text is then cut at its
matches by what can be read at each place: a stretch at no place of which there is a match, the match
behind it, and so on to a last stretch.
-/

namespace FourCE.Library.Regex

variable {C A α : Type} {M : Meaning C A α} {r : Re C A}

/-- What a match reads: its text, and what its groups captured. -/
structure Reading (α : Type) where
  text : List α
  groups : List (ℕ × List α)
  deriving DecidableEq, Repr

def Found.reading (m : Found α) : Reading α := ⟨m.text, m.stop.groups⟩

/-- What group `n` captured. -/
def Reading.group (x : Reading α) (n : ℕ) : Option (List α) :=
  (x.groups.find? fun g ↦ g.1 = n).map Prod.snd

theorem Found.group_reading (m : Found α) (n : ℕ) : m.reading.group n = m.group n := rfl

variable (M r) in
/-- What a match in front of a text reads. -/
def readAt (s : List α) : Option (Reading α) := (matchAt M r false [] s).map Found.reading

theorem blind_of_testless (b b' : List α) (h : testless r = true) : Blind M b b' r := by
  induction r with
  | eps | char => trivial
  | test => cases h
  | seq r q ihr ihq | alt r q ihr ihq =>
    rw [testless, Bool.and_eq_true] at h
    exact ⟨ihr h.1, ihq h.2⟩
  | rep _ _ _ r ih | group _ r ih => exact ih h

/-- Without tests what stands in front of a match is all the same to it. -/
theorem matchAt_reading (h : testless r = true) (before s : List α) :
    (matchAt M r false before s).map Found.reading = readAt M r s := by
  have hrel := matchAt_shifted (M := M) (blind_of_testless before [] h) false [] s
  rw [List.nil_append, List.append_nil] at hrel
  unfold readAt
  revert hrel
  generalize matchAt M r false before s = m
  generalize matchAt M r false [] s = n
  intro hrel
  cases hrel with
  | none => rfl
  | some hmn =>
    obtain ⟨-, -, -, -, hgroups⟩ := hmn.stop
    simp only [Option.map_some, Found.reading, hmn.text, hgroups]

theorem readAt_eq_first (s : List α) :
    readAt M r s = (first M r ⟨[], s, []⟩).map fun t ↦
      ⟨s.take (s.length - t.after.length), t.groups⟩ := by
  unfold readAt
  rw [matchAt_eq, Option.map_map]
  rfl

theorem readAt_eq_none_iff {s : List α} : readAt M r s = none ↔ run M r ⟨[], s, []⟩ = [] := by
  rw [readAt_eq_first, Option.map_eq_none_iff, first_eq_none_iff]

theorem matchAt_eq_none_of_readAt (h : testless r = true) {s : List α} (hs : readAt M r s = none)
    (before : List α) : matchAt M r false before s = none := by
  rw [← matchAt_reading h before, Option.map_eq_none_iff] at hs
  exact hs

theorem exists_matchAt_of_readAt (h : testless r = true) {s : List α} {x : Reading α}
    (hs : readAt M r s = some x) (before : List α) :
    ∃ m, matchAt M r false before s = some m ∧ m.reading = x := by
  rw [← matchAt_reading h before] at hs
  exact Option.map_eq_some_iff.mp hs

/-- Where a match stops, and that it has moved. -/
theorem stop_of_matchAt {before s : List α} {m : Found α} (h : matchAt M r false before s = some m) :
    s = m.text ++ m.stop.after ∧ m.stop.before = m.text.reverse ++ before ∧
      (consumes r = true → m.text ≠ []) := by
  have hstop := scanSize_stop h
  unfold matchAt at h
  obtain ⟨t, ht, rfl⟩ := Option.map_eq_some_iff.mp h
  have hmem := List.mem_of_mem_filter (List.mem_of_mem_head? ht)
  obtain ⟨-, q, hq, hbefore⟩ := hstop
  change s = q ++ t.after at hq
  change t.before = q.reverse ++ before at hbefore
  have hlen : s.length = q.length + t.after.length := by rw [hq, List.length_append]
  have htext : s.take (s.length - t.after.length) = q := by
    rw [show s.length - t.after.length = q.length by omega, hq, List.take_left]
  rw [htext]
  refine ⟨hq, hbefore, fun hr hnil ↦ ?_⟩
  have hlt : t.after.length < s.length := run_consumes r hr _ t hmem
  change q = [] at hnil
  rw [hnil, List.length_nil] at hlen
  omega

theorem text_of_readAt {s : List α} {x : Reading α} (h : readAt M r s = some x) :
    (∃ rest, s = x.text ++ rest) ∧ (consumes r = true → x.text ≠ []) := by
  obtain ⟨m, hm, rfl⟩ := Option.map_eq_some_iff.mp h
  have hstop := stop_of_matchAt hm
  exact ⟨⟨_, hstop.1⟩, hstop.2.2⟩

/-! ## Cutting -/

variable (M r) in
/-- A text cut at its matches: each with the stretch in front of it, and the stretch behind the last. -/
inductive Cuts : List α → List (List α × Reading α) → List α → Prop
  | last {s : List α} (hnone : ∀ v z, s = v ++ z → readAt M r z = none) : Cuts s [] s
  | hit {u w : List α} {x : Reading α} {ps : List (List α × Reading α)} {tail : List α}
      (hskip : ∀ v z, u = v ++ z → z ≠ [] → readAt M r (z ++ (x.text ++ w)) = none)
      (hhere : readAt M r (x.text ++ w) = some x) (hrest : Cuts w ps tail) :
      Cuts (u ++ (x.text ++ w)) ((u, x) :: ps) tail

/-- One more character that no match begins with. -/
theorem Cuts.cons {s tail : List α} {ps : List (List α × Reading α)} {c : α}
    (hc : readAt M r (c :: s) = none) (h : Cuts M r s ps tail) :
    (∃ u x qs, ps = (u, x) :: qs ∧ Cuts M r (c :: s) ((c :: u, x) :: qs) tail) ∨
      ps = [] ∧ Cuts M r (c :: s) [] (c :: s) := by
  cases h with
  | last hnone =>
    refine Or.inr ⟨rfl, .last fun v z hvz ↦ ?_⟩
    cases v with
    | nil =>
      obtain rfl : z = c :: s := hvz.symm
      exact hc
    | cons d v => exact hnone v z (List.cons.inj hvz).2
  | @hit u w x qs tail hskip hhere hrest =>
    refine Or.inl ⟨u, x, qs, rfl, ?_⟩
    rw [← List.cons_append]
    refine .hit (fun v z hvz hz ↦ ?_) hhere hrest
    cases v with
    | nil =>
      obtain rfl : z = c :: u := hvz.symm
      exact hc
    | cons d v => exact hskip v z (List.cons.inj hvz).2 hz

/-- A match with nothing in front of it. -/
theorem Cuts.first {w tail : List α} {x : Reading α} {ps : List (List α × Reading α)}
    (hhere : readAt M r (x.text ++ w) = some x) (h : Cuts M r w ps tail) :
    Cuts M r (x.text ++ w) (([], x) :: ps) tail := by
  rw [← List.nil_append (x.text ++ w)]
  exact .hit (fun v z hvz hz ↦ absurd (List.append_eq_nil_iff.mp hvz.symm).2 hz) hhere h

theorem exists_cuts (hr : consumes r = true) (s : List α) : ∃ ps tail, Cuts M r s ps tail := by
  induction hn : s.length using Nat.strongRecOn generalizing s with
  | ind n ih =>
    cases hx : readAt M r s with
    | some x =>
      obtain ⟨⟨w, rfl⟩, hne⟩ := text_of_readAt hx
      have hpos := List.length_pos_of_ne_nil (hne hr)
      rw [List.length_append] at hn
      obtain ⟨ps, tail, hw⟩ := ih w.length (by omega) w rfl
      exact ⟨_, _, hw.first hx⟩
    | none =>
      cases s with
      | nil =>
        refine ⟨[], [], .last fun v z hvz ↦ ?_⟩
        rw [(List.append_eq_nil_iff.mp hvz.symm).2]
        exact hx
      | cons c s =>
        rw [List.length_cons] at hn
        obtain ⟨ps, tail, hs⟩ := ih s.length (by omega) s rfl
        rcases hs.cons hx with ⟨u, x, qs, -, h⟩ | ⟨-, h⟩
        · exact ⟨_, _, h⟩
        · exact ⟨_, _, h⟩

/-- A scan passes over a stretch at no place of which there is a match. -/
theorem scanFrom_past {u rest : List α} (before : List α)
    (h : ∀ v z, u = v ++ z → z ≠ [] → matchAt M r false (v.reverse ++ before) (z ++ rest) = none) :
    scanFrom M r false before (u ++ rest) = scanFrom M r false (u.reverse ++ before) rest := by
  induction u generalizing before with
  | nil => rfl
  | cons c u ih =>
    have hnone : matchAt M r false before (c :: (u ++ rest)) = none :=
      h [] (c :: u) rfl (List.cons_ne_nil _ _)
    rw [List.cons_append, scanFrom_none_cons hnone, ih (c :: before) fun v z hvz hz ↦ ?_]
    · rw [List.reverse_cons, List.append_assoc]
      rfl
    · have hlater := h (c :: v) z (by rw [hvz, List.cons_append]) hz
      rwa [List.reverse_cons, List.append_assoc] at hlater

/-- The pieces are what a scan finds. -/
theorem Cuts.scan_eq (ht : testless r = true) (hr : consumes r = true) {s tail : List α}
    {ps : List (List α × Reading α)} (h : Cuts M r s ps tail) (before : List α) :
    (scanFrom M r false before s).map Found.reading = ps.map Prod.snd := by
  induction h generalizing before with
  | @last s hnone =>
    have hpast := @scanFrom_past _ _ _ M r s [] before fun v z hvz hz ↦ by
      rw [List.append_nil]
      exact matchAt_eq_none_of_readAt ht (hnone v z hvz) _
    rw [List.append_nil] at hpast
    rw [hpast, scanFrom_none_nil (matchAt_eq_none_of_readAt ht (hnone s [] (by simp)) _)]
    rfl
  | @hit u w x ps tail hskip hhere hrest ih =>
    obtain ⟨m, hm, hmx⟩ := exists_matchAt_of_readAt ht hhere (u.reverse ++ before)
    obtain ⟨hafter, hbefore, hne⟩ := stop_of_matchAt hm
    have htext : m.text = x.text := congrArg Reading.text hmx
    have hw : m.stop.after = w := by
      rw [htext] at hafter
      exact (List.append_cancel_left hafter).symm
    have hmoved : decide (m.stop.after.length = (x.text ++ w).length) = false := by
      have hpos := List.length_pos_of_ne_nil (hne hr)
      rw [decide_eq_false_iff_not, hw, List.length_append, ← htext]
      omega
    rw [scanFrom_past before fun v z hvz hz ↦ matchAt_eq_none_of_readAt ht (hskip v z hvz hz) _,
      scanFrom_some hm, hmoved, hw, List.map_cons, List.map_cons, hmx, ih]

end FourCE.Library.Regex

import FourCE.Library.RegexLocality

/-!
# Scanning a text in two parts

The matches of a text made of two parts, from left to right: what those that begin in the first
part leave of the second, and which of the matches of the first part alone they keep.
-/

namespace FourCE.Library.Regex

variable {C A α : Type} {M : Meaning C A α}

/-! ## Text put behind the right end -/

/-- The same state with more text behind it. -/
def State.extend (w : List α) (s : State α) : State α := { s with after := s.after ++ w }

variable (M) in
/-- No test of the expression sees whether `w` follows the text. -/
def BlindRight (w : List α) : Re C A → Prop
  | .eps | .char _ => True
  | .test a => ∀ before after, M.holds a before (after ++ w) = M.holds a before after
  | .seq r q | .alt r q => BlindRight w r ∧ BlindRight w q
  | .rep _ _ _ r | .group _ r => BlindRight w r

/-- The state has not run into the last `w` of its text. -/
def within (w : List α) (t : State α) : Bool := w.length ≤ t.after.length

theorem within_extend (w : List α) (s : State α) : within w (s.extend w) = true := by
  simp [within, State.extend]

theorem not_within_of_reaches {w : List α} {s t : State α} (h : s.Reaches t)
    (hs : within w s = false) : within w t = false := by
  have hle := h.after_le
  simp only [within, decide_eq_false_iff_not] at hs ⊢
  omega

/-- Filtering the ends of two steps: a first step that fails the filter leads nowhere. -/
theorem filter_flatMap_of {β γ : Type} {p : β → Bool} {q : γ → Bool} {f : β → List γ} (xs : List β)
    (h : ∀ x ∈ xs, p x = false → ∀ y ∈ f x, q y = false) :
    (xs.flatMap f).filter q = (xs.filter p).flatMap fun x ↦ (f x).filter q := by
  induction xs with
  | nil => rfl
  | cons x xs ih =>
    have hrest := ih fun y hy ↦ h y (List.mem_cons_of_mem _ hy)
    rw [List.flatMap_cons, List.filter_append, hrest]
    cases hx : p x with
    | true => rw [List.filter_cons_of_pos hx, List.flatMap_cons]
    | false =>
      have hnone : (f x).filter q = [] := by
        rw [List.filter_eq_nil_iff]
        intro y hy
        rw [h x List.mem_cons_self hx y hy]
        exact Bool.false_ne_true
      rw [List.filter_cons_of_neg (by simp [hx]), hnone, List.nil_append]

theorem flatMap_map_extend {w : List α} {f g : State α → List (State α)} (xs : List (State α))
    (h : ∀ s, (f (s.extend w)).filter (within w) = (g s).map (State.extend w)) :
    (xs.map (State.extend w)).flatMap (fun t ↦ (f t).filter (within w)) =
      (xs.flatMap g).map (State.extend w) := by
  induction xs with
  | nil => rfl
  | cons s xs ih => rw [List.map_cons, List.flatMap_cons, List.flatMap_cons, List.map_append, h, ih]

/-- Fuel for every iteration is fuel enough. -/
theorem repeats_fuel {step : State α → List (State α)} (greedy : Bool)
    (hstep : ∀ s, ∀ t ∈ step s, s.Reaches t) (fuel : ℕ) :
    ∀ (fuel' least : ℕ) (most : Option ℕ) (s : State α), least + s.after.length < fuel →
      least + s.after.length < fuel' →
      repeats step greedy fuel least most s = repeats step greedy fuel' least most s := by
  induction fuel with
  | zero => intro fuel' least most s h; omega
  | succ fuel ih =>
    intro fuel' least most s h h'
    obtain ⟨fuel', rfl⟩ := Nat.exists_eq_succ_of_ne_zero (Nat.ne_of_gt (Nat.zero_lt_of_lt h'))
    have hmore : again step (repeats step greedy fuel (least - 1) (most.map (· - 1))) least most s =
        again step (repeats step greedy fuel' (least - 1) (most.map (· - 1))) least most s := by
      unfold again
      split_ifs
      · rfl
      · refine List.flatMap_congr fun t ht ↦ ?_
        have hle := (hstep s t ht).after_le
        split_ifs with hgo
        · exact ih fuel' _ _ t (by omega) (by omega)
        · rfl
    rw [repeats, repeats, hmore]

theorem again_extend {w : List α} {step next : State α → List (State α)} (least : ℕ)
    (most : Option ℕ) (s : State α) (hreach : ∀ s, ∀ t ∈ next s, s.Reaches t)
    (hstep : ∀ s, (step (s.extend w)).filter (within w) = (step s).map (State.extend w))
    (hnext : ∀ s, (next (s.extend w)).filter (within w) = (next s).map (State.extend w)) :
    (again step next least most (s.extend w)).filter (within w) =
      (again step next least most s).map (State.extend w) := by
  unfold again
  split_ifs
  · rfl
  · rw [filter_flatMap_of (p := within w), hstep]
    · refine flatMap_map_extend _ fun t ↦ ?_
      have hlt : (t.extend w).after.length < (s.extend w).after.length ↔
          t.after.length < s.after.length := by simp [State.extend]
      simp only [hlt]
      split_ifs
      · exact hnext t
      · rfl
    · intro t _ ht u hu
      split_ifs at hu
      · exact not_within_of_reaches (hreach t u hu) ht
      · exact absurd hu List.not_mem_nil

theorem repeats_extend {w : List α} {step : State α → List (State α)} (greedy : Bool)
    (hreach : ∀ s, ∀ t ∈ step s, s.Reaches t)
    (hstep : ∀ s, (step (s.extend w)).filter (within w) = (step s).map (State.extend w))
    (fuel : ℕ) : ∀ (least : ℕ) (most : Option ℕ) (s : State α),
      (repeats step greedy fuel least most (s.extend w)).filter (within w) =
        (repeats step greedy fuel least most s).map (State.extend w) := by
  induction fuel with
  | zero => intro least most s; rfl
  | succ fuel ih =>
    intro least most s
    have hmore := again_extend least most s
      (repeats_reaches greedy hreach fuel (least - 1) (most.map (· - 1))) hstep
      (ih (least - 1) (most.map (· - 1)))
    rw [repeats, repeats]
    split_ifs
    · exact hmore
    · rw [List.filter_append, hmore, List.map_append, List.filter_cons_of_pos (within_extend w s)]
      rfl
    · rw [List.filter_cons_of_pos (within_extend w s), hmore, List.map_cons]

/-- More text behind the end adds only matches that run into it. -/
theorem run_extend (w : List α) (r : Re C A) (hblind : BlindRight M w r) :
    ∀ s, (run M r (s.extend w)).filter (within w) = (run M r s).map (State.extend w) := by
  induction r with
  | eps =>
    intro s
    exact List.filter_cons_of_pos (within_extend w s)
  | char c =>
    intro s
    rw [run, run]
    cases hs : s.after with
    | nil =>
      cases hw : w with
      | nil => simp [State.extend, hs]
      | cons x rest =>
        have hshort : within (x :: rest) (⟨x :: s.before, rest, s.groups⟩ : State α) = false := by
          simp [within]
        simp only [State.extend, hs, List.nil_append, List.map_nil]
        split_ifs
        · rw [List.filter_cons_of_neg (by simp [hshort]), List.filter_nil]
        · rfl
    | cons x rest =>
      simp only [State.extend, hs, List.cons_append]
      split_ifs
      · rw [List.filter_cons_of_pos (by simp [within])]
        rfl
      · rfl
  | test a =>
    intro s
    have hholds : M.holds a (s.extend w).before (s.extend w).after = M.holds a s.before s.after :=
      hblind s.before s.after
    rw [run, run, hholds]
    split_ifs
    · exact List.filter_cons_of_pos (within_extend w s)
    · rfl
  | seq r q ihr ihq =>
    intro s
    rw [run, run, filter_flatMap_of (p := within w), ihr hblind.1]
    · exact flatMap_map_extend _ (ihq hblind.2)
    · exact fun t _ ht u hu ↦ not_within_of_reaches (run_reaches q t u hu) ht
  | alt r q ihr ihq =>
    intro s
    rw [run, run, List.filter_append, List.map_append, ihr hblind.1, ihq hblind.2]
  | rep greedy least most r ih =>
    intro s
    rw [run, run, repeats_fuel greedy (run_reaches r) (least + s.after.length + 1)
      (least + (s.extend w).after.length + 1) least most s (by omega)
      (by simp only [State.extend, List.length_append]; omega)]
    exact repeats_extend greedy (run_reaches r) (ih hblind) _ least most s
  | group n r ih =>
    intro s
    have hmap : ∀ t : State α, (({ t.extend w with
        groups := (n, (s.extend w).upTo (t.extend w)) :: t.groups } : State α)) =
        State.extend w { t with groups := (n, s.upTo t) :: t.groups } := by
      intro t
      have hlen : s.after.length + w.length - (t.after.length + w.length) =
          s.after.length - t.after.length := by omega
      simp only [State.extend, State.upTo, List.length_append, hlen,
        List.take_append_of_le_length (Nat.sub_le _ _)]
    rw [run, run, List.filter_map, List.map_map]
    have hfilter : (within w ∘ fun t : State α ↦
        ({ t with groups := (n, (s.extend w).upTo t) :: t.groups } : State α)) = within w := rfl
    rw [hfilter, ih hblind, List.map_map]
    exact List.map_congr_left fun t _ ↦ hmap t

/-- The same match in the longer text. -/
def Found.extend (w : List α) (m : Found α) : Found α := { m with stop := m.stop.extend w }

theorem matchAt_none_iff {r : Re C A} {must : Bool} {before after : List α} :
    matchAt M r must before after = none ↔
      (run M r ⟨before, after, []⟩).filter (fun t ↦ !must || t.after.length < after.length) = [] := by
  rw [matchAt, Option.map_eq_none_iff, List.head?_eq_none_iff]

/-- A match in the longer text is the match in the shorter one, unless it runs past its end. -/
theorem matchAt_extend (w : List α) {r : Re C A} (hblind : BlindRight M w r) (must : Bool)
    (before after : List α) :
    matchAt M r must before (after ++ w) = (matchAt M r must before after).map (Found.extend w) ∨
    ∃ m, matchAt M r must before (after ++ w) = some m ∧ m.stop.after.length < w.length := by
  have hrun := run_extend w r hblind ⟨before, after, []⟩
  have hfilter : ((run M r ⟨before, after ++ w, []⟩).filter
      fun t ↦ !must || t.after.length < (after ++ w).length).filter (within w) =
      ((run M r ⟨before, after, []⟩).filter
        fun t ↦ !must || t.after.length < after.length).map (State.extend w) := by
    have hsame : (run M r ⟨before, after ++ w, []⟩).filter (within w) =
        (run M r ⟨before, after, []⟩).map (State.extend w) := hrun
    rw [List.filter_comm, hsame, List.filter_map]
    congr 2
    funext t
    simp [State.extend]
  unfold matchAt
  revert hfilter
  generalize (run M r ⟨before, after ++ w, []⟩).filter
    (fun t ↦ !must || t.after.length < (after ++ w).length) = long
  generalize (run M r ⟨before, after, []⟩).filter
    (fun t ↦ !must || t.after.length < after.length) = short
  intro hfilter
  cases long with
  | nil =>
    have hnil : short = [] := List.map_eq_nil_iff.mp hfilter.symm
    rw [hnil]
    exact Or.inl rfl
  | cons t long =>
    cases ht : within w t with
    | false => exact Or.inr ⟨_, rfl, by simpa [within] using ht⟩
    | true =>
      rw [List.filter_cons_of_pos ht] at hfilter
      cases short with
      | nil => exact absurd hfilter (by simp)
      | cons u short =>
        rw [List.map_cons, List.cons.injEq] at hfilter
        refine Or.inl ?_
        have hlen : (after ++ w).length - t.after.length = after.length - u.after.length := by
          rw [hfilter.1, State.extend, List.length_append, List.length_append]
          omega
        rw [List.head?_cons, List.head?_cons, Option.map_some, Option.map_some, Option.map_some, hlen,
          List.take_append_of_le_length (Nat.sub_le _ _), hfilter.1]
        rfl

/-! ## Scanning -/

/-- What bounds the turns a scan still takes. -/
def scanSize : Bool → List α → ℕ
  | true, after => 2 * after.length
  | false, after => 2 * after.length + 1

theorem scanSize_lt (must : Bool) (after : List α) : scanSize must after < 2 * after.length + 2 := by
  cases must <;> simp only [scanSize] <;> omega

theorem scanSize_cons (must : Bool) (x : α) (rest : List α) :
    scanSize false rest < scanSize must (x :: rest) := by
  cases must <;> simp only [scanSize, List.length_cons] <;> omega

theorem scanSize_stop {r : Re C A} {must : Bool} {before after : List α} {m : Found α}
    (h : matchAt M r must before after = some m) :
    scanSize (decide (m.stop.after.length = after.length)) m.stop.after < scanSize must after ∧
      ∃ q, after = q ++ m.stop.after ∧ m.stop.before = q.reverse ++ before := by
  unfold matchAt at h
  obtain ⟨t, ht, rfl⟩ := Option.map_eq_some_iff.mp h
  obtain ⟨hmem, hgo⟩ := List.mem_filter.mp (List.mem_of_mem_head? ht)
  have hreach := run_reaches r _ t hmem
  refine ⟨?_, hreach⟩
  have hle : t.after.length ≤ after.length := hreach.after_le
  cases must with
  | true =>
    have hlt : t.after.length < after.length := by simpa using hgo
    rw [decide_eq_false (Nat.ne_of_lt hlt)]
    simp only [scanSize]
    omega
  | false =>
    cases heq : decide (t.after.length = after.length) with
    | true =>
      have hsame := of_decide_eq_true heq
      simp only [scanSize]
      omega
    | false =>
      have hne := of_decide_eq_false heq
      simp only [scanSize]
      omega

theorem scan_succ (r : Re C A) (fuel : ℕ) (must : Bool) (before after : List α) :
    scan M r (fuel + 1) must before after = match matchAt M r must before after with
      | some m => m :: scan M r fuel (m.stop.after.length = after.length) m.stop.before m.stop.after
      | none => match after with
        | [] => []
        | x :: rest => scan M r fuel false (x :: before) rest := rfl

theorem scan_fuel (r : Re C A) (fuel : ℕ) : ∀ (fuel' : ℕ) (must : Bool) (before after : List α),
    scanSize must after < fuel → scanSize must after < fuel' →
    scan M r fuel must before after = scan M r fuel' must before after := by
  induction fuel with
  | zero => intro fuel' must before after h; omega
  | succ fuel ih =>
    intro fuel' must before after h h'
    obtain ⟨fuel', rfl⟩ := Nat.exists_eq_succ_of_ne_zero (Nat.ne_of_gt (Nat.zero_lt_of_lt h'))
    rw [scan_succ, scan_succ]
    cases hm : matchAt M r must before after with
    | some m =>
      have hlt := (scanSize_stop hm).1
      exact congrArg (m :: ·) (ih fuel' _ _ _ (by omega) (by omega))
    | none =>
      cases after with
      | nil => rfl
      | cons x rest =>
        have hlt := scanSize_cons must x rest
        exact ih fuel' false _ _ (by omega) (by omega)

variable (M) in
/-- A scan with all the fuel it needs. -/
def scanFrom (r : Re C A) (must : Bool) (before after : List α) : List (Found α) :=
  scan M r (2 * after.length + 2) must before after

theorem finditer_eq (r : Re C A) (text : List α) :
    finditer M r text = scanFrom M r false [] text := rfl

theorem scanFrom_eq (r : Re C A) (must : Bool) (before after : List α) :
    scanFrom M r must before after = match matchAt M r must before after with
      | some m =>
        m :: scanFrom M r (m.stop.after.length = after.length) m.stop.before m.stop.after
      | none => match after with
        | [] => []
        | x :: rest => scanFrom M r false (x :: before) rest := by
  rw [scanFrom, scan_succ]
  cases hm : matchAt M r must before after with
  | some m =>
    have hlt := (scanSize_stop hm).1
    have hbound := scanSize_lt must after
    exact congrArg (m :: ·) (scan_fuel r _ _ _ _ _ (by omega) (scanSize_lt _ _))
  | none =>
    cases after with
    | nil => rfl
    | cons x rest =>
      have hrest := scanSize_lt false rest
      exact scan_fuel r _ _ _ _ _ (by rw [List.length_cons]; omega) hrest

theorem scanFrom_some {r : Re C A} {must : Bool} {before after : List α} {m : Found α}
    (h : matchAt M r must before after = some m) : scanFrom M r must before after =
      m :: scanFrom M r (m.stop.after.length = after.length) m.stop.before m.stop.after := by
  rw [scanFrom_eq, h]

theorem scanFrom_none_cons {r : Re C A} {must : Bool} {before rest : List α} {x : α}
    (h : matchAt M r must before (x :: rest) = none) :
    scanFrom M r must before (x :: rest) = scanFrom M r false (x :: before) rest := by
  rw [scanFrom_eq, h]

theorem scanFrom_none_nil {r : Re C A} {must : Bool} {before : List α}
    (h : matchAt M r must before [] = none) : scanFrom M r must before [] = [] := by
  rw [scanFrom_eq, h]

/-- A scan does not see what its tests do not see. -/
theorem scanFrom_shifted {b b' : List α} {r : Re C A} (hblind : Blind M b b' r) (must : Bool)
    (near after : List α) :
    List.Forall₂ (ShiftedFound b b') (scanFrom M r must (near ++ b) after)
      (scanFrom M r must (near ++ b') after) := by
  induction hn : scanSize must after using Nat.strongRecOn generalizing must near after with
  | ind n ih =>
    have hrel := matchAt_shifted hblind must near after
    cases hm : matchAt M r must (near ++ b) after with
    | some m =>
      rw [hm] at hrel
      cases hm' : matchAt M r must (near ++ b') after with
      | none => rw [hm'] at hrel; cases hrel
      | some m' =>
        rw [hm'] at hrel
        cases hrel with
        | some hmm =>
          have hlt := (scanSize_stop hm).1
          obtain ⟨near', hb, hb', hafter, -⟩ := hmm.stop
          rw [scanFrom_some hm, scanFrom_some hm', hb, hb', hafter]
          exact .cons hmm (ih _ (hn ▸ hlt) _ _ _ rfl)
    | none =>
      rw [hm] at hrel
      cases hm' : matchAt M r must (near ++ b') after with
      | some m' => rw [hm'] at hrel; cases hrel
      | none =>
        cases after with
        | nil =>
          rw [scanFrom_none_nil hm, scanFrom_none_nil hm']
          exact .nil
        | cons x rest =>
          have hlt := scanSize_cons must x rest
          rw [scanFrom_none_cons hm, scanFrom_none_cons hm']
          exact ih _ (hn ▸ hlt) false (x :: near) rest rfl

theorem start_le_of_mem_scanFrom {r : Re C A} {must : Bool} {before after : List α} :
    ∀ m ∈ scanFrom M r must before after, before.length ≤ m.start := by
  induction hn : scanSize must after using Nat.strongRecOn generalizing must before after with
  | ind n ih =>
    intro k hk
    cases hm : matchAt M r must before after with
    | some m =>
      obtain ⟨hlt, q, -, hbefore⟩ := scanSize_stop hm
      rw [scanFrom_some hm] at hk
      rcases List.mem_cons.mp hk with rfl | hk
      · exact Nat.le_of_eq (congrArg List.length (matchAt_before hm)).symm
      · have hle := ih _ (hn ▸ hlt) rfl k hk
        have hgrow : before.length ≤ m.stop.before.length := by
          rw [hbefore, List.length_append]
          exact Nat.le_add_left _ _
        exact Nat.le_trans hgrow hle
    | none =>
      cases after with
      | nil =>
        rw [scanFrom_none_nil hm] at hk
        exact absurd hk List.not_mem_nil
      | cons x rest =>
        have hlt := scanSize_cons must x rest
        rw [scanFrom_none_cons hm] at hk
        have hle := ih _ (hn ▸ hlt) rfl k hk
        rw [List.length_cons] at hle
        exact Nat.le_trans (Nat.le_succ _) hle

/-! ## Two parts -/

/-- Where the last of these matches ends. -/
def endOf (ms : List (Found α)) : ℕ := (ms.getLast?.map Found.finish).getD 0

theorem endOf_cons (m : Found α) (ms : List (Found α)) :
    endOf (m :: ms) = if ms = [] then m.finish else endOf ms := by
  cases ms with
  | nil => rfl
  | cons k ms => simp [endOf]

/-- A scan of two parts: the matches that begin in the first part, then a scan of what they leave
of the second. -/
theorem scanFrom_append (r : Re C A) (w : List α) (must : Bool) (before u : List α)
    (hu : u = [] → must = false) :
    ∃ A c w', w = c ++ w' ∧
      scanFrom M r must before (u ++ w) =
        A ++ scanFrom M r false (c.reverse ++ (u.reverse ++ before)) w' ∧
      (∀ m ∈ A, m.start < before.length + u.length) ∧
      c.length = endOf A - (before.length + u.length) := by
  induction hn : scanSize must (u ++ w) using Nat.strongRecOn generalizing must before u with
  | ind n ih =>
    cases u with
    | nil => exact ⟨[], [], w, rfl, by rw [hu rfl]; rfl, by simp, by simp [endOf]⟩
    | cons x u =>
      cases hm : matchAt M r must before (x :: u ++ w) with
      | some m =>
        obtain ⟨hlt, q, hq, hbefore⟩ := scanSize_stop hm
        have hfinish : m.finish = q.length + before.length := by
          rw [Found.finish, hbefore, List.length_append, List.length_reverse]
        have hstart : m.start < before.length + (x :: u).length := by
          rw [Found.start, matchAt_before hm, List.length_cons]
          omega
        rcases List.append_eq_append_iff.mp hq with ⟨c, hqc, hwc⟩ | ⟨c, huc, hafter⟩
        · -- the match ends in the second part, `c` being what it takes of it
          have hmust : decide (m.stop.after.length = (x :: u ++ w).length) = false := by
            rw [hwc]
            simp only [List.length_append, List.length_cons, decide_eq_false_iff_not]
            omega
          refine ⟨[m], c, m.stop.after, hwc, ?_, ?_, ?_⟩
          · rw [scanFrom_some hm, hmust, hbefore, hqc]
            simp
          · intro k hk
            rwa [List.mem_singleton.mp hk]
          · have hend : endOf [m] = m.finish := rfl
            rw [hend, hfinish, hqc, List.length_append]
            omega
        · -- the match ends in the first part, of which `c` is left
          have hmust : c = [] → decide (m.stop.after.length = (x :: u ++ w).length) = false := by
            rintro rfl
            rw [hafter]
            simp only [List.length_append, List.length_cons, List.length_nil, decide_eq_false_iff_not]
            omega
          have hsize := hlt
          rw [hafter] at hsize
          obtain ⟨A, d, w', hw, hscan, hA, hd⟩ :=
            ih _ (hn ▸ hsize) _ m.stop.before c (by rw [← hafter]; exact hmust) rfl
          have hcount : m.stop.before.length + c.length = before.length + (x :: u).length := by
            rw [hbefore, huc]
            simp only [List.length_append, List.length_reverse]
            omega
          rw [hcount] at hA hd
          refine ⟨m :: A, d, w', hw, ?_, ?_, ?_⟩
          · rw [scanFrom_some hm, hafter, hscan, hbefore, huc]
            simp
          · intro k hk
            rcases List.mem_cons.mp hk with rfl | hk
            · exact hstart
            · exact hA k hk
          · rw [endOf_cons]
            split_ifs with hnil
            · rw [hd, hnil, hfinish]
              have hlen := congrArg List.length huc
              rw [List.length_append] at hlen
              simp only [endOf, List.getLast?_nil, Option.map_none, Option.getD_none]
              omega
            · exact hd
      | none =>
        have hlt := scanSize_cons must x (u ++ w)
        obtain ⟨A, c, w', hw, hscan, hA, hc⟩ := ih _ (hn ▸ hlt) false (x :: before) u (fun _ ↦ rfl) rfl
        have hcount : (x :: before).length + u.length = before.length + (x :: u).length := by
          simp only [List.length_cons]
          omega
        rw [hcount] at hA hc
        refine ⟨A, c, w', hw, ?_, hA, hc⟩
        rw [List.cons_append] at hm ⊢
        rw [scanFrom_none_cons hm, hscan]
        simp

/-- A scan of a text with more text behind it keeps the matches of the text alone up to the first
one that runs past its end. -/
theorem scanFrom_extend (w : List α) {r : Re C A} (hblind : BlindRight M w r) (must : Bool)
    (before v : List α) :
    ∃ A A' B, scanFrom M r must before v = A ++ A' ∧
      scanFrom M r must before (v ++ w) = A.map (Found.extend w) ++ B ∧
      (∀ m ∈ B, before.length + v.length ≤ m.start ∨ before.length + v.length < m.finish) ∧
      (A' ≠ [] → ∃ x ∈ B, ∀ m ∈ A', x.start ≤ m.start) := by
  induction hn : scanSize must v using Nat.strongRecOn generalizing must before v with
  | ind n ih =>
    rcases matchAt_extend w hblind must before v with heq | ⟨x, hx, hpast⟩
    · cases hm : matchAt M r must before v with
      | some m =>
        rw [hm, Option.map_some] at heq
        obtain ⟨hlt, q, hq, hbefore⟩ := scanSize_stop hm
        obtain ⟨A, A', B, hA, hB, hpast, hover⟩ :=
          ih _ (hn ▸ hlt) _ m.stop.before m.stop.after rfl
        have hcount : m.stop.before.length + m.stop.after.length = before.length + v.length := by
          have hlen := congrArg List.length hq
          rw [List.length_append] at hlen
          rw [hbefore, List.length_append, List.length_reverse, hlen]
          omega
        have hmust : decide ((m.extend w).stop.after.length = (v ++ w).length) =
            decide (m.stop.after.length = v.length) := by
          simp [Found.extend, State.extend]
        rw [hcount] at hpast
        refine ⟨m :: A, A', B, ?_, ?_, hpast, hover⟩
        · rw [scanFrom_some hm, hA, List.cons_append]
        · rw [scanFrom_some heq, hmust, List.map_cons, List.cons_append, ← hB]
          rfl
      | none =>
        rw [hm, Option.map_none] at heq
        cases v with
        | nil =>
          refine ⟨[], [], scanFrom M r must before ([] ++ w), ?_, rfl, ?_, by simp⟩
          · rw [scanFrom_none_nil hm]
            rfl
          · exact fun m hmem ↦ Or.inl (start_le_of_mem_scanFrom m hmem)
        | cons x rest =>
          have hlt := scanSize_cons must x rest
          obtain ⟨A, A', B, hA, hB, hpast, hover⟩ := ih _ (hn ▸ hlt) false (x :: before) rest rfl
          have hcount : (x :: before).length + rest.length = before.length + (x :: rest).length := by
            simp only [List.length_cons]
            omega
          rw [hcount] at hpast
          rw [List.cons_append] at heq ⊢
          exact ⟨A, A', B, by rw [scanFrom_none_cons hm, hA], by rw [scanFrom_none_cons heq, hB], hpast, hover⟩
    · obtain ⟨-, q, hq, hbefore⟩ := scanSize_stop hx
      have hstop : before.length + v.length < x.finish := by
        have hlen := congrArg List.length hq
        rw [List.length_append, List.length_append] at hlen
        rw [Found.finish, hbefore, List.length_append, List.length_reverse]
        omega
      refine ⟨[], scanFrom M r must before v, scanFrom M r must before (v ++ w), rfl, rfl, ?_, fun _ ↦ ?_⟩
      · intro m hmem
        rw [scanFrom_some hx] at hmem
        rcases List.mem_cons.mp hmem with rfl | hmem
        · exact Or.inr hstop
        · have hle := start_le_of_mem_scanFrom m hmem
          exact Or.inl (Nat.le_trans (Nat.le_of_lt hstop) hle)
      · refine ⟨x, by rw [scanFrom_some hx]; exact List.mem_cons_self, fun m hmem ↦ ?_⟩
        rw [Found.start, matchAt_before hx]
        exact start_le_of_mem_scanFrom m hmem

/-! ## Matches that are not empty -/

/-- Every match of the expression has at least one character. -/
def consumes : Re C A → Bool
  | .eps | .test _ => false
  | .char _ => true
  | .seq r q => consumes r || consumes q
  | .alt r q => consumes r && consumes q
  | .rep _ least _ r => 0 < least && consumes r
  | .group _ r => consumes r

theorem run_consumes (r : Re C A) (hr : consumes r = true) :
    ∀ s, ∀ t ∈ run M r s, t.after.length < s.after.length := by
  induction r with
  | eps => exact absurd hr (by simp [consumes])
  | test a => exact absurd hr (by simp [consumes])
  | char c =>
    intro s t ht
    rw [run] at ht
    split at ht
    · exact absurd ht List.not_mem_nil
    · rename_i x rest hafter
      split_ifs at ht
      · rw [List.mem_singleton.mp ht, hafter]
        exact Nat.lt_succ_self _
      · exact absurd ht List.not_mem_nil
  | seq r q ihr ihq =>
    intro s t ht
    obtain ⟨u, hu, htu⟩ := List.mem_flatMap.mp ht
    have hsu := (run_reaches r s u hu).after_le
    have hut := (run_reaches q u t htu).after_le
    rw [consumes, Bool.or_eq_true] at hr
    rcases hr with hr | hq
    · exact Nat.lt_of_le_of_lt hut (ihr hr s u hu)
    · exact Nat.lt_of_lt_of_le (ihq hq u t htu) hsu
  | alt r q ihr ihq =>
    intro s t ht
    rw [consumes, Bool.and_eq_true] at hr
    rcases List.mem_append.mp ht with ht | ht
    · exact ihr hr.1 s t ht
    · exact ihq hr.2 s t ht
  | rep greedy least most r ih =>
    intro s t ht
    rw [consumes, Bool.and_eq_true] at hr
    have hleast : 0 < least := of_decide_eq_true hr.1
    rw [run, repeats, if_pos hleast, again] at ht
    split_ifs at ht
    · exact absurd ht List.not_mem_nil
    · obtain ⟨u, hu, htu⟩ := List.mem_flatMap.mp ht
      rw [if_pos (Or.inl hleast)] at htu
      have hut := (repeats_reaches greedy (run_reaches r) _ _ _ u t htu).after_le
      exact Nat.lt_of_le_of_lt hut (ih hr.2 s u hu)
  | group n r ih =>
    intro s t ht
    obtain ⟨u, hu, rfl⟩ := List.mem_map.mp ht
    exact ih hr s u hu

/-- The matches of a scan follow one another, each within the text. -/
theorem scanFrom_ordered (r : Re C A) (must : Bool) (before after : List α) :
    (scanFrom M r must before after).Pairwise (fun m k ↦ m.finish ≤ k.start) ∧
      ∀ m ∈ scanFrom M r must before after, m.finish ≤ before.length + after.length ∧
        (consumes r = true → m.start < m.finish) := by
  induction hn : scanSize must after using Nat.strongRecOn generalizing must before after with
  | ind n ih =>
    cases hm : matchAt M r must before after with
    | some m =>
      obtain ⟨hlt, q, hq, hbefore⟩ := scanSize_stop hm
      obtain ⟨hpairs, hall⟩ := ih _ (hn ▸ hlt) _ m.stop.before m.stop.after rfl
      have hfinish : m.finish = q.length + before.length := by
        rw [Found.finish, hbefore, List.length_append, List.length_reverse]
      have hlen : after.length = q.length + m.stop.after.length := by
        rw [← List.length_append, ← hq]
      rw [scanFrom_some hm]
      refine ⟨List.pairwise_cons.mpr ⟨fun k hk ↦ start_le_of_mem_scanFrom k hk, hpairs⟩, ?_⟩
      intro k hk
      rcases List.mem_cons.mp hk with rfl | hk
      · refine ⟨by omega, fun hr ↦ ?_⟩
        unfold matchAt at hm
        obtain ⟨t, ht, rfl⟩ := Option.map_eq_some_iff.mp hm
        have hmem := (List.mem_filter.mp (List.mem_of_mem_head? ht)).1
        have hless : t.after.length < after.length := run_consumes r hr _ t hmem
        have hstop : (after.length : ℕ) = q.length + t.after.length := hlen
        rw [hfinish, Found.start]
        change before.length < _
        omega
      · obtain ⟨hle, hne⟩ := hall k hk
        have hcount : m.stop.before.length = q.length + before.length := hfinish
        exact ⟨by omega, hne⟩
    | none =>
      cases after with
      | nil =>
        rw [scanFrom_none_nil hm]
        exact ⟨.nil, by simp⟩
      | cons x rest =>
        have hlt := scanSize_cons must x rest
        obtain ⟨hpairs, hall⟩ := ih _ (hn ▸ hlt) false (x :: before) rest rfl
        rw [scanFrom_none_cons hm]
        refine ⟨hpairs, fun k hk ↦ ?_⟩
        obtain ⟨hle, hne⟩ := hall k hk
        rw [List.length_cons] at hle ⊢
        exact ⟨by omega, hne⟩

end FourCE.Library.Regex

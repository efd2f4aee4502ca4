import FourCE.Orchestrator.BlankLines

/-!
# What tidying does to fenced blocks

`_tidy` leaves the parts between fences alone, but it shortens the prose in front of them and collapses
newlines everywhere.  A block comes out as it was written where it has no three newlines one behind the
other, unless the prose in front of some block is left with a backtick at its end.
-/

namespace FourCE.Orchestrator

open FourCE.Library.Regex FourCE.Python

/-! ## Prose that ends in a backtick -/

/-- With backticks in front, a text that has no three by itself begins the first three at once. -/
theorem exists_early_ticks {k : ℕ} (hk : k ≤ 2) {s : PyStr} (hnone : threes 0 s = 0)
    (hsome : threes k s ≠ 0) : ∃ more, List.replicate k 96 ++ s = ticks ++ more := by
  induction s generalizing k with
  | nil => exact absurd rfl hsome
  | cons c s ih =>
    by_cases hc : c = 96
    · subst hc
      by_cases htwo : 2 ≤ k
      · obtain rfl : k = 2 := by omega
        exact ⟨s, rfl⟩
      · rw [threes_tick, if_neg htwo] at hsome
        rw [threes_tick, if_neg (by decide)] at hnone
        have hzero : threes 0 s = 0 := Nat.eq_zero_of_le_zero (hnone ▸ (threes_mono (Nat.zero_le _) s).1)
        obtain ⟨more, hmore⟩ := ih (k := k + 1) (by omega) hzero hsome
        refine ⟨more, ?_⟩
        rw [← hmore, List.replicate_succ', List.append_assoc]
        rfl
    · rw [threes_other hc] at hsome hnone
      exact absurd hnone hsome

/-- A stretch without a three is clear, but for the backticks at its end. -/
theorem exists_clear {s : PyStr} (h : threes 0 s = 0) :
    ∃ u k, s = u ++ List.replicate k 96 ∧ Clear u ∧ k ≤ 2 := by
  have hwhole := List.takeWhile_append_dropWhile (p := fun x : CodePoint ↦ decide (x = 96)) (l := s.reverse)
  have hrun : ∀ x ∈ s.reverse.takeWhile (· = 96), x = 96 := fun x hx ↦
    of_decide_eq_true (List.all_eq_true.mp List.all_takeWhile x hx)
  rw [List.eq_replicate_of_mem hrun] at hwhole
  generalize (s.reverse.takeWhile (· = 96)).length = k at hwhole
  have hs : s = (s.reverse.dropWhile (· = 96)).reverse ++ List.replicate k 96 := by
    rw [← List.reverse_replicate, ← List.reverse_append, hwhole, List.reverse_reverse]
  have hnone : threes 0 (s.reverse.dropWhile (· = 96)).reverse = 0 := by
    have hle := threes_isInfix (a := (s.reverse.dropWhile (· = 96)).reverse) (b := s)
      ⟨[], List.replicate k 96, by rw [List.nil_append, ← hs]⟩
    exact Nat.eq_zero_of_le_zero (hle.trans h.le)
  refine ⟨(s.reverse.dropWhile (· = 96)).reverse, k, hs, ⟨hnone, ?_⟩, ?_⟩
  · rw [List.getLast?_reverse]
    have hhead := List.head?_dropWhile_not (fun x : CodePoint ↦ decide (x = 96)) s.reverse
    intro hlast
    rw [hlast] at hhead
    simp at hhead
  · by_contra hmany
    obtain ⟨m, rfl⟩ := Nat.exists_eq_add_of_le (show 3 ≤ k by omega)
    have hinfix : ticks <:+: s := by
      rw [hs]
      exact ⟨_, List.replicate m 96, by rw [List.replicate_add, ← List.append_assoc]; rfl⟩
    exact absurd (h ▸ threes_isInfix hinfix) (by decide)

/-! ## Stretches that have been rewritten -/

/-- Rewritten stretches with the blocks behind them, and a rewritten end. -/
def rejoin (ps : List (PyStr × PyStr)) (tail : PyStr) : PyStr :=
  ps.foldr (fun p rest ↦ p.1 ++ (ticks ++ (p.2 ++ (ticks ++ rest)))) tail

theorem rejoin_cons (p : PyStr × PyStr) (ps : List (PyStr × PyStr)) (tail : PyStr) :
    rejoin (p :: ps) tail = p.1 ++ (ticks ++ (p.2 ++ (ticks ++ rejoin ps tail))) := rfl

theorem map_fenced (ps : List (PyStr × PyStr)) :
    (ps.map fun p ↦ fenced p.2) = (ps.map Prod.snd).map fenced :=
  (List.map_map (g := fenced) (f := Prod.snd) (l := ps)).symm

/-- The stretches of a text and its blocks are clear, and what is left has no block. -/
theorem Fenced.clear {s tail : PyStr} {ps : List (PyStr × PyStr)} (h : Fenced s ps tail) :
    (∀ p ∈ ps, Clear p.1 ∧ Clear p.2) ∧ threes 0 tail < 2 := by
  induction h with
  | last hfew => exact ⟨nofun, hfew⟩
  | block hu hg _ ih => exact ⟨List.forall_mem_cons.mpr ⟨⟨hu, hg⟩, ih.1⟩, ih.2⟩

section

variable [Unicode]

theorem blocksOf_block {u g : PyStr} (hu : Clear u) (hg : Clear g) (w : PyStr) :
    blocksOf (u ++ (ticks ++ (g ++ (ticks ++ w)))) = fenced g :: blocksOf w := by
  obtain ⟨ps, tail, hw⟩ := exists_fenced w
  rw [(Fenced.block hu hg hw).blocksOf, hw.blocksOf, List.map_cons]

theorem blocksOf_squeeze (s : PyStr) : blocksOf (squeeze 0 s) = (blocksOf s).map (squeeze 0) := by
  obtain ⟨ps, tail, hs⟩ := exists_fenced s
  rw [hs.squeeze.blocksOf, hs.blocksOf, List.map_map, List.map_map]
  exact List.map_congr_left fun p _ ↦ (squeeze_fenced p.2).symm

theorem blocksOf_pad (s a b : PyStr) (ha : (96 : CodePoint) ∉ a) (hb : (96 : CodePoint) ∉ b) :
    blocksOf (a ++ s ++ b) = blocksOf s := by
  obtain ⟨ps, tail, hs⟩ := exists_fenced s
  obtain ⟨qs, hqs, tail', hpad⟩ := hs.pad ha hb
  rw [hpad.blocksOf, hs.blocksOf, map_fenced, hqs, map_fenced]

theorem blocksOf_strip (s : PyStr) : blocksOf (strip s) = blocksOf s := by
  have hwhite : ∀ (s : PyStr), (96 : CodePoint) ∉ s.takeWhile isWhite := by
    intro s hmem
    exact absurd (List.all_eq_true.mp List.all_takeWhile 96 hmem) (by decide)
  have hs : s = s.takeWhile isWhite ++ strip s ++ ((s.dropWhile isWhite).reverse.takeWhile isWhite).reverse := by
    unfold strip
    rw [List.append_assoc, ← List.reverse_append, List.takeWhile_append_dropWhile, List.reverse_reverse,
      List.takeWhile_append_dropWhile]
  calc blocksOf (strip s)
      = blocksOf (s.takeWhile isWhite ++ strip s ++
          ((s.dropWhile isWhite).reverse.takeWhile isWhite).reverse) :=
        (blocksOf_pad _ _ _ (hwhite s) fun h ↦ hwhite _ (List.mem_reverse.mp h)).symm
    _ = blocksOf s := by rw [← hs]

/-- Where no stretch ends in a backtick the blocks are found again. -/
theorem blocksOf_rejoin {ps : List (PyStr × PyStr)} {tail : PyStr}
    (hfront : ∀ p ∈ ps, Clear p.1) (hbody : ∀ p ∈ ps, Clear p.2) (htail : threes 0 tail < 2) :
    blocksOf (rejoin ps tail) = ps.map fun p ↦ fenced p.2 := by
  induction ps with
  | nil => exact (Fenced.last htail).blocksOf
  | cons p ps ih =>
    obtain ⟨hp, hps⟩ := List.forall_mem_cons.mp hfront
    obtain ⟨hg, hgs⟩ := List.forall_mem_cons.mp hbody
    rw [rejoin_cons, blocksOf_block hp hg, ih hps hgs, List.map_cons]

/-- Behind a stretch that ends in a backtick a block that is not empty is found as another. -/
theorem exists_changed {front g : PyStr} (hnone : threes 0 front = 0) (hlast : front.getLast? = some 96)
    (hg : Clear g) (hne : g ≠ []) (w : PyStr) :
    ∃ body rest, blocksOf (front ++ (ticks ++ (g ++ (ticks ++ w)))) = fenced body :: rest ∧
      (body = [] ∨ g.count 96 < body.count 96) := by
  obtain ⟨u, k, rfl, hu, hk⟩ := exists_clear hnone
  have hpos : 0 < k := by
    refine Nat.pos_of_ne_zero fun hzero ↦ hu.last ?_
    rwa [hzero, List.replicate_zero, List.append_nil] at hlast
  have hswap : List.replicate k (96 : CodePoint) ++ ticks = ticks ++ List.replicate k 96 := by
    change List.replicate k 96 ++ List.replicate 3 96 = List.replicate 3 96 ++ List.replicate k 96
    rw [List.replicate_append_replicate, List.replicate_append_replicate, Nat.add_comm]
  have hmoved : u ++ List.replicate k 96 ++ (ticks ++ (g ++ (ticks ++ w))) =
      u ++ (ticks ++ ((List.replicate k 96 ++ g) ++ (ticks ++ w))) := by
    rw [List.append_assoc, ← List.append_assoc _ ticks, hswap]
    simp only [List.append_assoc]
  rw [hmoved]
  by_cases hearly : threes k g = 0
  · refine ⟨List.replicate k 96 ++ g, _, blocksOf_block hu ⟨?_, ?_⟩ w, Or.inr ?_⟩
    · have hfew : k = 1 ∨ k = 2 := by omega
      rcases hfew with rfl | rfl <;> exact hearly
    · obtain ⟨a, c, rfl⟩ := (List.eq_nil_or_concat g).resolve_left hne
      have hlast := hg.last
      rw [List.concat_eq_append] at hlast ⊢
      rwa [← List.append_assoc, List.getLast?_concat, ← List.getLast?_concat (l := a)]
    · rw [List.count_append, List.count_replicate_self]
      omega
  · obtain ⟨more, hmore⟩ := exists_early_ticks hk hg.none hearly
    rw [hmore, List.append_assoc]
    exact ⟨[], _, blocksOf_block (g := []) hu clear_nil _, Or.inl rfl⟩

/-- The first stretch that ends in a backtick changes the block behind it, unless this is empty. -/
theorem blocksOf_rejoin_ne {ps qs : List (PyStr × PyStr)} {front g tail : PyStr}
    (hfront : ∀ p ∈ ps, Clear p.1) (hbody : ∀ p ∈ ps ++ (front, g) :: qs, Clear p.2)
    (hnone : threes 0 front = 0) (hlast : front.getLast? = some 96) (hne : g ≠ []) :
    (blocksOf (rejoin (ps ++ (front, g) :: qs) tail)).map (squeeze 0) ≠
      (ps ++ (front, g) :: qs).map fun p ↦ fenced p.2 := by
  induction ps with
  | nil =>
    obtain ⟨body, rest, hblocks, hbody'⟩ := exists_changed hnone hlast
      (hbody (front, g) List.mem_cons_self) hne (rejoin qs tail)
    intro heq
    rw [List.nil_append, rejoin_cons, hblocks, List.map_cons, List.map_cons, squeeze_fenced] at heq
    have hsame : squeeze 0 body = g := by
      have hfenced := (List.cons.inj heq).1
      exact List.append_cancel_right (List.append_cancel_left hfenced)
    rcases hbody' with rfl | hmore
    · exact hne hsame.symm
    · rw [← hsame, count_squeeze] at hmore
      exact absurd hmore (lt_irrefl _)
  | cons p ps ih =>
    obtain ⟨hp, hps⟩ := List.forall_mem_cons.mp hfront
    obtain ⟨hg, hgs⟩ := List.forall_mem_cons.mp hbody
    intro heq
    rw [List.cons_append, rejoin_cons, blocksOf_block hp hg, List.map_cons, List.map_cons] at heq
    exact ih hps hgs (List.cons.inj heq).2

/-! ## Tidying -/

/-- The prose in front of each block as it is left by tidying, with the block. -/
def tidiedFronts : Bool → List (PyStr × PyStr) → List (PyStr × PyStr)
  | _, [] => []
  | opening, (text, x) :: parts => ((tidyPart opening text).2, x) :: tidiedFronts false parts

/-- The first block in front of which the prose is left with a backtick at its end. -/
def tickedFront (text : PyStr) : Option (PyStr × PyStr) :=
  (tidiedFronts true (reSplitKeeping fences (strip text)).1).find? fun p ↦ p.1.getLast? = some 96

theorem tidiedFronts_fenced (opening : Bool) (ps : List (PyStr × PyStr)) :
    tidiedFronts opening (ps.map fun p ↦ (p.1, fenced p.2)) =
      (tidiedFronts opening ps).map fun p ↦ (p.1, fenced p.2) := by
  induction ps generalizing opening with
  | nil => rfl
  | cons p ps ih => rw [List.map_cons, tidiedFronts, tidiedFronts, List.map_cons, ih]

/-- No block is left out, and only what is in front of it changes. -/
theorem tidyParts_eq (opening : Bool) (ps : List (PyStr × PyStr)) (tail : PyStr) :
    ∃ tail', threes 0 tail' ≤ threes 0 tail ∧
      tidyParts opening (ps.map fun p ↦ (p.1, fenced p.2)) tail = rejoin (tidiedFronts opening ps) tail' := by
  induction ps generalizing opening with
  | nil => exact ⟨_, threes_tidyPart opening tail, rfl⟩
  | cons p ps ih =>
    obtain ⟨tail', htail, heq⟩ := ih false
    refine ⟨tail', htail, ?_⟩
    rw [List.map_cons, tidyParts, heq, tidiedFronts, rejoin_cons, fenced]
    simp only [List.append_assoc]

theorem threes_tidiedFronts {opening : Bool} {ps : List (PyStr × PyStr)} (h : ∀ p ∈ ps, Clear p.1) :
    ∀ p ∈ tidiedFronts opening ps, threes 0 p.1 = 0 := by
  induction ps generalizing opening with
  | nil => exact nofun
  | cons p ps ih =>
    obtain ⟨hp, hps⟩ := List.forall_mem_cons.mp h
    rw [tidiedFronts, List.forall_mem_cons]
    exact ⟨Nat.eq_zero_of_le_zero ((threes_tidyPart opening p.1).trans hp.none.le), ih hps⟩

theorem bodies_tidiedFronts (opening : Bool) (ps : List (PyStr × PyStr)) :
    (tidiedFronts opening ps).map Prod.snd = ps.map Prod.snd := by
  induction ps generalizing opening with
  | nil => rfl
  | cons p ps ih => rw [tidiedFronts, List.map_cons, List.map_cons, ih]

theorem fenced_eq_iff {g : PyStr} : fenced g = ticks ++ ticks ↔ g = [] := by
  constructor
  · intro h
    have hempty : g ++ ticks = [] ++ ticks := List.append_cancel_left h
    exact List.append_cancel_right hempty
  · rintro rfl
    rfl

/-- A text whose blocks hold no three newlines keeps them where no prose is left with a backtick in front
of a fence.  A text that keeps its blocks holds no three newlines in them, and the first block behind such
a backtick, if there is one, is made of six backticks. -/
theorem blocksOf_tidy_iff (text : PyStr) :
    ((∀ block ∈ blocksOf text, ¬ gap <:+: block) ∧ tickedFront text = none →
      blocksOf (tidy text) = blocksOf text) ∧
    (blocksOf (tidy text) = blocksOf text →
      (∀ block ∈ blocksOf text, ¬ gap <:+: block) ∧ ∀ p ∈ tickedFront text, p.2 = ticks ++ ticks) := by
  obtain ⟨ps, tail, hs⟩ := exists_fenced (strip text)
  obtain ⟨hclear, htail⟩ := hs.clear
  obtain ⟨tail', hle, hparts⟩ := tidyParts_eq true ps tail
  have hbodies := bodies_tidiedFronts true ps
  have hthrees := @threes_tidiedFronts _ true ps fun p hp ↦ (hclear p hp).1
  have hbefore : blocksOf text = (tidiedFronts true ps).map fun p ↦ fenced p.2 := by
    rw [← blocksOf_strip, hs.blocksOf, map_fenced, map_fenced, hbodies]
  have hafter : blocksOf (tidy text) =
      (blocksOf (rejoin (tidiedFronts true ps) tail')).map (squeeze 0) := by
    unfold tidy
    rw [hs.split, blocksOf_strip, reSub_blankLines, blocksOf_squeeze, hparts]
  have hticked : tickedFront text =
      ((tidiedFronts true ps).find? fun p ↦ p.1.getLast? = some 96).map fun p ↦ (p.1, fenced p.2) := by
    unfold tickedFront
    rw [hs.split, tidiedFronts_fenced, List.find?_map]
    rfl
  have hbody : ∀ p ∈ tidiedFronts true ps, Clear p.2 := by
    intro p hp
    have hmem := List.mem_map_of_mem (f := Prod.snd) hp
    rw [hbodies] at hmem
    obtain ⟨q, hq, heq⟩ := List.mem_map.mp hmem
    exact heq ▸ (hclear q hq).2
  constructor
  · rintro ⟨hgap, hnone⟩
    rw [hticked, Option.map_eq_none_iff, List.find?_eq_none] at hnone
    have hfront : ∀ p ∈ tidiedFronts true ps, Clear p.1 := fun p hp ↦
      ⟨hthrees p hp, fun hlast ↦ hnone p hp (decide_eq_true hlast)⟩
    rw [hafter, blocksOf_rejoin hfront hbody (hle.trans_lt htail), hbefore]
    rw [hbefore] at hgap
    calc ((tidiedFronts true ps).map fun p ↦ fenced p.2).map (squeeze 0)
        = ((tidiedFronts true ps).map fun p ↦ fenced p.2).map id :=
          List.map_congr_left fun block hblock ↦
            (squeeze_eq_self_iff (Nat.zero_le 2) block).mpr (hgap block hblock)
      _ = (tidiedFronts true ps).map fun p ↦ fenced p.2 := List.map_id _
  · intro heq
    constructor
    · intro block hblock
      rw [← heq, hafter] at hblock
      obtain ⟨b, -, rfl⟩ := List.mem_map.mp hblock
      exact not_gap_squeeze b
    · intro p hp
      rw [hticked, Option.mem_map] at hp
      obtain ⟨q, hq, rfl⟩ := hp
      obtain ⟨hlast, as, bs, hsplit, has⟩ := List.find?_eq_some_iff_append.mp hq
      rw [fenced_eq_iff]
      by_contra hne
      rw [hafter, hbefore, hsplit] at heq
      rw [hsplit] at hthrees hbody
      refine blocksOf_rejoin_ne (fun a ha ↦ ⟨hthrees a (List.mem_append_left _ ha), fun h ↦ ?_⟩) hbody
        (hthrees q (List.mem_append_right _ List.mem_cons_self)) (of_decide_eq_true hlast) hne heq
      simpa [h] using has a ha

end

section Sample

local instance asciiTidier : Unicode := asciiTables

/-- A block with two blank lines in it. -/
def spacedProgram : PyStr := py "```py\na\n\n\nb\n```"

theorem spacedProgram_changed : blocksOf (tidy spacedProgram) ≠ blocksOf spacedProgram := by
  decide +kernel

end Sample

end FourCE.Orchestrator

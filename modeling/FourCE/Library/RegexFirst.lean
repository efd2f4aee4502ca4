import FourCE.Library.RegexRuns

/-!
# The run that is preferred

A match is the first of the runs at its position.  Here is which one that is: for a sequence, for a
repeated class that takes as much as it can or as little, and for a search; and what no run begins
with.
-/

namespace FourCE.Library.Regex

variable {C A α : Type} {M : Meaning C A α}

variable (M) in
/-- The run that is preferred. -/
def first (r : Re C A) (s : State α) : Option (State α) := (run M r s).head?

theorem first_eq_none_iff {r : Re C A} {s : State α} : first M r s = none ↔ run M r s = [] :=
  List.head?_eq_none_iff

theorem first_seq (r q : Re C A) (s : State α) :
    first M (.seq r q) s = (run M r s).findSome? (first M q) := by
  rw [first, run, List.head?_flatMap]
  rfl

theorem first_eps (s : State α) : first M (.eps : Re C A) s = some s := rfl

theorem first_char_seq {c : C} (q : Re C A) {s : State α} {x : α} {rest : List α}
    (hafter : s.after = x :: rest) (hx : M.accepts c x = true) :
    first M (.seq (.char c) q) s = first M q (s.past [x] rest) := by
  rw [first_seq, run, hafter]
  simp [hx, State.past]

theorem matchAt_eq (r : Re C A) (before after : List α) :
    matchAt M r false before after = (first M r ⟨before, after, []⟩).map fun t ↦
      ⟨before, after.take (after.length - t.after.length), t⟩ := by
  simp [matchAt, first]

theorem first_seq_of {r q : Re C A} {s u t : State α} (hr : first M r s = some u)
    (hq : first M q u = some t) : first M (.seq r q) s = some t := by
  obtain ⟨rest, hrun⟩ := List.head?_eq_some_iff.mp hr
  rw [first_seq, hrun, List.findSome?_cons, hq]

theorem first_group_of {n : ℕ} {r : Re C A} {s u : State α} (hr : first M r s = some u) :
    first M (.group n r) s = some { u with groups := (n, s.upTo u) :: u.groups } := by
  obtain ⟨rest, hrun⟩ := List.head?_eq_some_iff.mp hr
  rw [first, run, hrun]
  rfl

/-! ## Repeated classes -/

theorem run_rep_stop {c : C} (greedy : Bool) {s : State α}
    (h : ∀ x rest, s.after = x :: rest → M.accepts c x = false) :
    run M (.rep greedy 0 none (.char c) : Re C A) s = [s] := by
  have hstep : run M (.char c : Re C A) s = [] := by
    rw [run]
    cases hafter : s.after with
    | nil => rfl
    | cons x rest => simp [h x rest hafter]
  rw [run, Nat.zero_add, repeats]
  simp [again, hstep]

theorem again_char {c : C} {next : State α → List (State α)} {s : State α} {x : α} {rest : List α}
    (hafter : s.after = x :: rest) (hx : M.accepts c x = true) :
    again (run M (.char c : Re C A)) next 0 none s = next (s.past [x] rest) := by
  have hstep : run M (.char c : Re C A) s = [s.past [x] rest] := by
    rw [run, hafter]
    simp [hx, State.past]
  rw [again, hstep]
  simp [hafter]

/-- A greedy repetition goes on before it stops. -/
theorem run_greedy_cons {c : C} {s : State α} {x : α} {rest : List α} (hafter : s.after = x :: rest)
    (hx : M.accepts c x = true) :
    run M (.rep true 0 none (.char c) : Re C A) s =
      run M (.rep true 0 none (.char c) : Re C A) (s.past [x] rest) ++ [s] := by
  rw [run, run, Nat.zero_add, repeats, again_char hafter hx, State.past_after, hafter,
    List.length_cons, Nat.zero_add]
  rfl

/-- A greedy repetition prefers the whole of a stretch its class accepts. -/
theorem first_rep {c : C} {s : State α} {u rest : List α} (hafter : s.after = u ++ rest)
    (hu : ∀ x ∈ u, M.accepts c x = true)
    (hrest : ∀ x more, rest = x :: more → M.accepts c x = false) :
    first M (.rep true 0 none (.char c) : Re C A) s = some (s.past u rest) := by
  unfold first
  induction u generalizing s with
  | nil =>
    rw [run_rep_stop true fun x more h ↦ hrest x more (by rw [← h, hafter]; rfl)]
    cases s
    simp_all [State.past]
  | cons x u ih =>
    rw [run_greedy_cons hafter (hu x List.mem_cons_self), List.head?_append,
      ih rfl fun z hz ↦ hu z (List.mem_cons_of_mem _ hz), State.past_past]
    rfl

/-- One step is the first of those that there must be. -/
theorem run_rep_succ_cons {c : C} {n : ℕ} {s : State α} {x : α} {rest : List α}
    (hafter : s.after = x :: rest) (hx : M.accepts c x = true) :
    run M (.rep true (n + 1) none (.char c) : Re C A) s =
      run M (.rep true n none (.char c) : Re C A) (s.past [x] rest) := by
  have hstep : run M (.char c : Re C A) s = [s.past [x] rest] := by
    rw [run, hafter]
    simp [hx, State.past]
  rw [run, run, repeats, again, hstep]
  simp only [reduceCtorEq, if_false, List.flatMap_cons, List.flatMap_nil, List.append_nil,
    Nat.zero_lt_succ, true_or, if_true, Nat.add_sub_cancel, Option.map_none]
  exact repeats_fuel true (run_reaches _) _ _ n none _ (by simp [hafter]; omega) (by simp)

/-- A greedy repetition of at least `n` prefers the whole of a stretch that is long enough. -/
theorem first_rep_least {c : C} {n : ℕ} {s : State α} {u rest : List α} (hafter : s.after = u ++ rest)
    (hn : n ≤ u.length) (hu : ∀ x ∈ u, M.accepts c x = true)
    (hrest : ∀ x more, rest = x :: more → M.accepts c x = false) :
    first M (.rep true n none (.char c) : Re C A) s = some (s.past u rest) := by
  induction n generalizing s u with
  | zero => exact first_rep hafter hu hrest
  | succ n ih =>
    cases u with
    | nil => exact absurd hn (Nat.not_succ_le_zero n)
    | cons x u =>
      obtain ⟨hx, hmore⟩ := List.forall_mem_cons.mp hu
      have hlater := ih (s := s.past [x] (u ++ rest)) rfl (Nat.le_of_succ_le_succ hn) hmore
      rw [State.past_past] at hlater
      rw [first, run_rep_succ_cons hafter hx]
      exact hlater

/-- A stretch its class accepts, in a group. -/
theorem first_capture {c : C} {n : ℕ} {s : State α} {x : α} {u rest : List α}
    (hafter : s.after = x :: u ++ rest) (hu : ∀ y ∈ x :: u, M.accepts c y = true)
    (hrest : ∀ y more, rest = y :: more → M.accepts c y = false) :
    first M (.group n (.seq (.rep true 1 none (.char c)) .eps) : Re C A) s =
      some ⟨(x :: u).reverse ++ s.before, rest, (n, x :: u) :: s.groups⟩ := by
  rw [first_group_of (first_seq_of (first_rep_least hafter (Nat.succ_pos _) hu hrest) (first_eps _)),
    upTo_past s hafter]
  rfl

/-- A lazy repetition stops before it goes on. -/
theorem run_lazy_cons {c : C} {s : State α} {x : α} {rest : List α} (hafter : s.after = x :: rest)
    (hx : M.accepts c x = true) :
    run M (.rep false 0 none (.char c) : Re C A) s =
      s :: run M (.rep false 0 none (.char c) : Re C A) (s.past [x] rest) := by
  rw [run, run, Nat.zero_add, repeats, again_char hafter hx, State.past_after, hafter,
    List.length_cons, Nat.zero_add]
  rfl

/-- A greedy repetition in front of `q` stops where `q` succeeds and succeeds no more behind. -/
theorem first_greedy {c : C} {q : Re C A} {s t : State α} {u : List α} {y : α} {rest : List α}
    (hafter : s.after = u ++ y :: rest) (hu : ∀ x ∈ u, M.accepts c x = true)
    (hy : M.accepts c y = true) (hq : first M q (s.past u (y :: rest)) = some t)
    (hbehind : ∀ v more, rest = v ++ more → (∀ x ∈ v, M.accepts c x = true) →
      first M q (s.past (u ++ y :: v) more) = none) :
    first M (.seq (.rep true 0 none (.char c)) q) s = some t := by
  rw [first_seq]
  induction u generalizing s with
  | nil =>
    rw [run_greedy_cons hafter hy, List.findSome?_append]
    have hnone : (run M (.rep true 0 none (.char c) : Re C A) (s.past [y] rest)).findSome?
        (first M q) = none := by
      rw [List.findSome?_eq_none_iff]
      intro p hp
      obtain ⟨v, more, hrest, hv, -, -, rfl⟩ := mem_run_rep_char.mp hp
      rw [State.past_past]
      exact hbehind v more hrest hv
    have hself : s.past [] (y :: rest) = s := by
      cases s
      simp_all [State.past]
    rw [hnone, Option.none_or, List.findSome?_singleton, ← hself]
    exact hq
  | cons x u ih =>
    rw [List.cons_append] at hafter
    rw [run_greedy_cons hafter (hu x List.mem_cons_self), List.findSome?_append]
    have hrest := ih (s := s.past [x] (u ++ y :: rest)) rfl
      (fun z hz ↦ hu z (List.mem_cons_of_mem _ hz)) (by rw [State.past_past]; exact hq)
      (fun v more hmore hv ↦ by rw [State.past_past]; exact hbehind v more hmore hv)
    rw [hrest]
    rfl

/-- A lazy repetition stops at the first place where `k` succeeds. -/
theorem findSome?_lazy {β : Type} {c : C} {k : State α → Option β} {b : β} {s : State α}
    {u rest : List α} (hafter : s.after = u ++ rest) (hu : ∀ x ∈ u, M.accepts c x = true)
    (hk : k (s.past u rest) = some b)
    (hbefore : ∀ v w, u = v ++ w → w ≠ [] → k (s.past v (w ++ rest)) = none) :
    (run M (.rep false 0 none (.char c) : Re C A) s).findSome? k = some b := by
  have hself : s.past [] s.after = s := by
    cases s
    rfl
  induction u generalizing s with
  | nil =>
    rw [List.nil_append] at hafter
    have hhere : k s = some b := by rw [← hk, ← hafter, hself]
    rw [run, Nat.zero_add, repeats]
    simp [hhere]
  | cons x u ih =>
    have hhere : k s = none := by
      have hnone := hbefore [] (x :: u) rfl (List.cons_ne_nil _ _)
      rwa [← hafter, hself] at hnone
    rw [List.cons_append] at hafter
    rw [run_lazy_cons hafter (hu x List.mem_cons_self), List.findSome?_cons, hhere]
    refine ih (s := s.past [x] (u ++ rest)) rfl (fun z hz ↦ hu z (List.mem_cons_of_mem _ hz)) ?_ ?_ rfl
    · rw [State.past_past]
      exact hk
    · intro v w hvw hw
      rw [State.past_past]
      exact hbefore (x :: v) w (by rw [hvw, List.cons_append]) hw

/-! ## Words and blocks -/

/-- A word letter by letter, and `q` behind it. -/
def exactly (f : α → C) (w : List α) (q : Re C A) : Re C A :=
  w.foldr (fun x r ↦ .seq (.char (f x)) r) q

/-- `w`, blanks, the end `nl` of a line, the shortest text in front of `close`, and `close`. -/
def block (f : α → C) (blank any : C) (n : ℕ) (w : List α) (nl : α) (close : List α) : Re C A :=
  exactly f w (.seq (.rep true 0 none (.char blank)) (exactly f [nl]
    (.seq (.group n (.seq (.rep false 0 none (.char any)) .eps)) (exactly f close .eps))))

/-- A word, the shortest text in front of `close`, and `close`. -/
def between (f : α → C) (any : C) (w close : List α) : Re C A :=
  exactly f w (.seq (.rep false 0 none (.char any)) (exactly f close .eps))

theorem first_alt_left {r q : Re C A} {s t : State α} (h : first M r s = some t) :
    first M (.alt r q) s = some t := by
  obtain ⟨rest, hrun⟩ := List.head?_eq_some_iff.mp h
  rw [first, run, hrun]
  rfl

theorem first_alt_right {r q : Re C A} {s : State α} (h : first M r s = none) :
    first M (.alt r q) s = first M q s := by
  rw [first, run, first_eq_none_iff.mp h]
  rfl

/-- Where one state is all that a run can come to, it comes there first. -/
theorem first_of_forall {r : Re C A} {s t : State α} (ht : t ∈ run M r s) (hall : ∀ u ∈ run M r s, u = t) :
    first M r s = some t := by
  cases hrun : run M r s with
  | nil =>
    rw [hrun] at ht
    cases ht
  | cons u rest =>
    rw [first, hrun, List.head?_cons, hall u (hrun ▸ List.mem_cons_self)]

/-- A word whose letters are accepted where they stand is read. -/
theorem first_word {f : α → C} (hself : ∀ x, M.accepts (f x) x = true) {w rest : List α} (q : Re C A)
    {s : State α} (hafter : s.after = w ++ rest) :
    first M (exactly f w q) s = first M q (s.past w rest) := by
  induction w generalizing s with
  | nil =>
    obtain rfl : s.after = rest := hafter
    rfl
  | cons x w ih =>
    rw [List.cons_append] at hafter
    have hstep := ih (s := s.past [x] (w ++ rest)) rfl
    rw [State.past_past] at hstep
    exact (first_char_seq (exactly f w q) hafter (hself x)).trans hstep

/-- Two words go on in different ways behind what they share. -/
def clash [DecidableEq α] (differ : α → α → Bool) : List α → List α → Bool
  | x :: w, y :: v => differ x y || (x = y && clash differ w v)
  | _, _ => false

/-- A word is given up where another one stands that goes on in a way it does not accept. -/
theorem first_clash [DecidableEq α] {f : α → C} {differ : α → α → Bool} (hself : ∀ x, M.accepts (f x) x = true)
    (hdiffer : ∀ x y, differ x y = true → M.accepts (f x) y = false) {w v rest : List α} (q : Re C A)
    (h : clash differ w v = true) {s : State α} (hafter : s.after = v ++ rest) :
    first M (exactly f w q) s = none := by
  induction w generalizing v s with
  | nil => cases h
  | cons x w ih =>
    cases v with
    | nil => cases h
    | cons y v =>
      rw [List.cons_append] at hafter
      rw [clash, Bool.or_eq_true, Bool.and_eq_true, decide_eq_true_eq] at h
      rcases h with h | ⟨rfl, h⟩
      · rw [first_eq_none_iff, List.eq_nil_iff_forall_not_mem]
        intro t ht
        obtain ⟨u, hu, -⟩ := mem_run_seq.mp ht
        obtain ⟨z, more, hz, haccepts, -⟩ := mem_run_char.mp hu
        obtain ⟨rfl, -⟩ := List.cons_eq_cons.mp (hafter.symm.trans hz)
        rw [hdiffer x y h] at haccepts
        cases haccepts
      · exact (first_char_seq (exactly f w q) hafter (hself x)).trans (ih (s := s.past [x] (v ++ rest)) h rfl)

section Words

variable {f : α → C} (hf : ∀ x y, M.accepts (f x) y = true ↔ y = x)

include hf

theorem first_exactly {w rest : List α} (q : Re C A) {s : State α} (hafter : s.after = w ++ rest) :
    first M (exactly f w q) s = first M q (s.past w rest) := first_word (fun x ↦ (hf x x).mpr rfl) q hafter

theorem mem_run_exactly {w : List α} {q : Re C A} {s t : State α} :
    t ∈ run M (exactly f w q) s ↔ ∃ rest, s.after = w ++ rest ∧ t ∈ run M q (s.past w rest) := by
  induction w generalizing s with
  | nil =>
    constructor
    · exact fun h ↦ ⟨s.after, rfl, h⟩
    · rintro ⟨rest, hafter, h⟩
      obtain rfl : s.after = rest := hafter
      exact h
  | cons x w ih =>
    have hcons : exactly f (x :: w) q = .seq (.char (f x)) (exactly f w q) := rfl
    rw [hcons, mem_run_seq]
    constructor
    · rintro ⟨v, hv, ht⟩
      obtain ⟨y, tail, hafter, hy, rfl⟩ := mem_run_char.mp hv
      obtain ⟨rest, rfl, ht⟩ := ih.mp ht
      obtain rfl := (hf x y).mp hy
      exact ⟨rest, hafter, by rwa [State.past_past] at ht⟩
    · rintro ⟨rest, hafter, ht⟩
      refine ⟨s.past [x] (w ++ rest), mem_run_char.mpr ⟨x, w ++ rest, hafter, (hf x x).mpr rfl, rfl⟩,
        ih.mpr ⟨rest, rfl, ?_⟩⟩
      rwa [State.past_past]

theorem first_exactly_none {w : List α} {q : Re C A} {s : State α} (h : ∀ rest, s.after ≠ w ++ rest) :
    first M (exactly f w q) s = none := by
  rw [first_eq_none_iff, List.eq_nil_iff_forall_not_mem]
  intro t ht
  obtain ⟨rest, hafter, -⟩ := (mem_run_exactly hf).mp ht
  exact h rest hafter

variable {blank any : C} {n : ℕ}

/-- Where a block begins, its word stands with blanks and the end of a line behind it. -/
theorem opens_of_mem_run_block {w : List α} {nl : α} {close : List α} {s t : State α}
    (h : t ∈ run M (block f blank any n w nl close : Re C A) s) :
    ∃ u post, s.after = w ++ (u ++ nl :: post) ∧ ∀ x ∈ u, M.accepts blank x = true := by
  obtain ⟨rest, hafter, h⟩ := (mem_run_exactly hf).mp h
  obtain ⟨v, hv, h⟩ := mem_run_seq.mp h
  obtain ⟨u, more, hrest, hu, -, -, rfl⟩ := mem_run_rep_char.mp hv
  obtain ⟨post, hmore, -⟩ := (mem_run_exactly hf).mp h
  rw [State.past_after] at hrest hmore
  exact ⟨u, post, by rw [hafter, hrest, hmore]; rfl, hu⟩

/-- The text up to the first `close`, behind the end of a line. -/
theorem first_body (hany : ∀ x, M.accepts any x = true) {g close more : List α} {nl : α} {s : State α}
    (hafter : s.after = nl :: (g ++ (close ++ more)))
    (hclose : ∀ v z rest, g = v ++ z → z ≠ [] → z ++ (close ++ more) ≠ close ++ rest) :
    first M (exactly f [nl] (.seq (.group n (.seq (.rep false 0 none (.char any)) .eps))
        (exactly f close .eps)) : Re C A) s =
      some { s.past (nl :: (g ++ close)) more with groups := (n, g) :: s.groups } := by
  rw [first_exactly hf _ (w := [nl]) hafter, first_seq, run, List.findSome?_map]
  have heps (r : State α) : run M (.seq (.rep false 0 none (.char any)) .eps : Re C A) r =
      run M (.rep false 0 none (.char any) : Re C A) r := by
    rw [run]
    exact List.flatMap_singleton' _
  rw [heps]
  refine findSome?_lazy (u := g) rfl (fun x _ ↦ hany x) ?_ ?_
  · rw [Function.comp_apply, first_exactly hf _ (w := close) rfl, first_eps,
      upTo_past _ rfl]
    simp [State.past]
  · intro v z hvz hz
    exact first_exactly_none hf fun rest h ↦ hclose v z rest hvz hz h

/-- The block that is preferred: the last line end among the blanks, and the first `close`. -/
theorem first_block (hany : ∀ x, M.accepts any x = true) {w u g more : List α} {nl : α}
    {close : List α} {s : State α} (hafter : s.after = w ++ (u ++ nl :: (g ++ (close ++ more))))
    (hu : ∀ x ∈ u, M.accepts blank x = true) (hnl : M.accepts blank nl = true)
    (hbehind : ∀ v rest, g ++ (close ++ more) = v ++ nl :: rest → ∃ x ∈ v, M.accepts blank x = false)
    (hclose : ∀ v z rest, g = v ++ z → z ≠ [] → z ++ (close ++ more) ≠ close ++ rest) :
    first M (block f blank any n w nl close : Re C A) s =
      some { s.past (w ++ (u ++ nl :: (g ++ close))) more with groups := (n, g) :: s.groups } := by
  rw [block, first_exactly hf _ hafter]
  refine first_greedy (u := u) (y := nl) rfl hu hnl ?_ ?_
  · rw [State.past_past, first_body hf hany rfl hclose]
    simp [State.past]
  · intro v rest hrest hv
    refine first_exactly_none hf fun tail htail ↦ ?_
    obtain ⟨x, hx, hfalse⟩ := hbehind v tail (by rw [hrest]; exact congrArg (v ++ ·) htail)
    rw [hv x hx] at hfalse
    cases hfalse

/-- `w`, a label, and the rest of a block. -/
def labelled (f : α → C) (label blank any : C) (k n : ℕ) (w : List α) (nl : α) (close : List α) : Re C A :=
  exactly f w (.seq (.group k (.seq (.rep true 0 none (.char label)) .eps)) (block f blank any n [] nl close))

/-- Between two words there is anything. -/
theorem of_mem_run_between {w close : List α} {s t : State α}
    (h : t ∈ run M (between f any w close : Re C A) s) :
    ∃ g more, s.after = w ++ (g ++ (close ++ more)) := by
  obtain ⟨rest, hafter, h⟩ := (mem_run_exactly hf).mp h
  obtain ⟨v, hv, h⟩ := mem_run_seq.mp h
  obtain ⟨g, tail, hrest, -, -, -, rfl⟩ := mem_run_rep_char.mp hv
  obtain ⟨more, htail, -⟩ := (mem_run_exactly hf).mp h
  rw [State.past_after] at hrest htail
  exact ⟨g, more, by rw [hafter, hrest, htail]⟩

/-- The stretch between two words that is preferred is the shortest. -/
theorem first_between (hany : ∀ x, M.accepts any x = true) {w g close more : List α} {s : State α}
    (hafter : s.after = w ++ (g ++ (close ++ more)))
    (hclose : ∀ v z rest, g = v ++ z → z ≠ [] → z ++ (close ++ more) ≠ close ++ rest) :
    first M (between f any w close : Re C A) s = some (s.past (w ++ (g ++ close)) more) := by
  rw [between, first_exactly hf _ hafter, first_seq]
  refine findSome?_lazy (u := g) rfl (fun x _ ↦ hany x) ?_ ?_
  · rw [first_exactly hf _ (w := close) rfl, first_eps]
    simp [State.past]
  · intro v z hvz hz
    exact first_exactly_none hf fun rest h ↦ hclose v z rest hvz hz h

end Words

/-! ## What a run begins with -/

/-- Every run stays where it is or begins with a character of one of these classes. -/
def skips (p : C → Bool) : Re C A → Bool
  | .eps | .test _ => true
  | .char c => p c
  | .seq r q | .alt r q => skips p r && skips p q
  | .rep _ _ _ r | .group _ r => skips p r

/-- Every run begins with a character of one of these classes, behind parts that may stay. -/
def leads (p : C → Bool) : Re C A → Bool
  | .eps | .test _ => false
  | .char c => p c
  | .seq r q => leads p r || skips p r && leads p q
  | .alt r q => leads p r && leads p q
  | .rep _ least _ r => decide (0 < least) && leads p r
  | .group _ r => leads p r

variable (M) in
/-- The text behind a state begins with a character of one of these classes. -/
def BeginsWith (p : C → Bool) (s : State α) : Prop :=
  ∃ x rest, s.after = x :: rest ∧ ∃ c, p c = true ∧ M.accepts c x = true

theorem BeginsWith.of_after_eq {p : C → Bool} {s t : State α} (h : BeginsWith M p t)
    (heq : t.after = s.after) : BeginsWith M p s := by
  rwa [BeginsWith, ← heq]

theorem exists_step_of_mem_again {step next : State α → List (State α)} {least : ℕ} {most : Option ℕ}
    {s t : State α} (h : t ∈ again step next least most s) : ∃ u ∈ step s, t ∈ next u := by
  rw [again] at h
  split_ifs at h
  · cases h
  · obtain ⟨u, hu, ht⟩ := List.mem_flatMap.mp h
    split_ifs at ht
    · exact ⟨u, hu, ht⟩
    · cases ht

theorem repeats_skips {p : C → Bool} {step : State α → List (State α)}
    (hstep : ∀ s, ∀ t ∈ step s, t.after = s.after ∨ BeginsWith M p s) (greedy : Bool) (fuel : ℕ) :
    ∀ (least : ℕ) (most : Option ℕ) (s : State α), ∀ t ∈ repeats step greedy fuel least most s,
      t.after = s.after ∨ BeginsWith M p s := by
  induction fuel with
  | zero =>
    intro least most s t ht
    cases ht
  | succ fuel ih =>
    intro least most s t ht
    have hmore (ht : t ∈ again step (repeats step greedy fuel (least - 1) (most.map (· - 1))) least most s) :
        t.after = s.after ∨ BeginsWith M p s := by
      obtain ⟨u, hu, ht⟩ := exists_step_of_mem_again ht
      rcases hstep s u hu with heq | hbegins
      · exact (ih _ _ u t ht).imp (·.trans heq) (·.of_after_eq heq)
      · exact Or.inr hbegins
    rw [repeats] at ht
    split_ifs at ht
    · exact hmore ht
    · rcases List.mem_append.mp ht with ht | ht
      · exact hmore ht
      · exact Or.inl (by rw [List.mem_singleton.mp ht])
    · rcases List.mem_cons.mp ht with rfl | ht
      · exact Or.inl rfl
      · exact hmore ht

theorem run_skips {p : C → Bool} {r : Re C A} (h : skips p r = true) :
    ∀ s, ∀ t ∈ run M r s, t.after = s.after ∨ BeginsWith M p s := by
  induction r with
  | eps =>
    intro s t ht
    exact Or.inl (by rw [mem_run_eps.mp ht])
  | test a =>
    intro s t ht
    exact Or.inl (by rw [(mem_run_test.mp ht).2])
  | char c =>
    intro s t ht
    obtain ⟨x, rest, hafter, hx, -⟩ := mem_run_char.mp ht
    exact Or.inr ⟨x, rest, hafter, c, h, hx⟩
  | seq r q ihr ihq =>
    intro s t ht
    rw [skips, Bool.and_eq_true] at h
    obtain ⟨u, hu, ht⟩ := mem_run_seq.mp ht
    rcases ihr h.1 s u hu with heq | hbegins
    · exact (ihq h.2 u t ht).imp (·.trans heq) (·.of_after_eq heq)
    · exact Or.inr hbegins
  | alt r q ihr ihq =>
    intro s t ht
    rw [skips, Bool.and_eq_true] at h
    rcases mem_run_alt.mp ht with ht | ht
    · exact ihr h.1 s t ht
    · exact ihq h.2 s t ht
  | rep greedy least most r ih =>
    intro s t ht
    rw [run] at ht
    exact repeats_skips (ih h) greedy _ _ _ s t ht
  | group n r ih =>
    intro s t ht
    obtain ⟨u, hu, rfl⟩ := mem_run_group.mp ht
    exact ih h s u hu

theorem run_leads {p : C → Bool} {r : Re C A} (h : leads p r = true) {s t : State α}
    (ht : t ∈ run M r s) : BeginsWith M p s := by
  induction r generalizing s t with
  | eps | test => cases h
  | char c =>
    obtain ⟨x, rest, hafter, hx, -⟩ := mem_run_char.mp ht
    exact ⟨x, rest, hafter, c, h, hx⟩
  | seq r q ihr ihq =>
    obtain ⟨u, hu, ht⟩ := mem_run_seq.mp ht
    rw [leads, Bool.or_eq_true, Bool.and_eq_true] at h
    rcases h with h | ⟨hskips, h⟩
    · exact ihr h hu
    · rcases run_skips hskips s u hu with heq | hbegins
      · exact (ihq h ht).of_after_eq heq
      · exact hbegins
  | alt r q ihr ihq =>
    rw [leads, Bool.and_eq_true] at h
    rcases mem_run_alt.mp ht with ht | ht
    · exact ihr h.1 ht
    · exact ihq h.2 ht
  | rep greedy least most r ih =>
    rw [leads, Bool.and_eq_true, decide_eq_true_eq] at h
    rw [run, repeats] at ht
    rw [if_pos h.1] at ht
    obtain ⟨u, hu, -⟩ := exists_step_of_mem_again ht
    exact ih h.2 hu
  | group n r ih =>
    obtain ⟨u, hu, -⟩ := mem_run_group.mp ht
    exact ih h hu

/-- Nothing matches in front of a character no class of which begins a match. -/
theorem matchAt_eq_none_of_leads {p : C → Bool} {r : Re C A} (h : leads p r = true) {x : α}
    {before rest : List α} (hx : ∀ c, p c = true → M.accepts c x = false) :
    matchAt M r false before (x :: rest) = none := by
  rw [matchAt_eq, Option.map_eq_none_iff, first_eq_none_iff, List.eq_nil_iff_forall_not_mem]
  intro t ht
  obtain ⟨y, tail, hafter, c, hc, hy⟩ := run_leads h ht
  obtain rfl : x = y := (List.cons.inj hafter).1
  rw [hx c hc] at hy
  cases hy

/-! ## Searching -/

/-- A search passes over what does not begin a match. -/
theorem searchFrom_past {r : Re C A} {u rest : List α} (before : List α)
    (h : ∀ v w, u = v ++ w → w ≠ [] → run M r ⟨v.reverse ++ before, w ++ rest, []⟩ = []) :
    searchFrom M r before (u ++ rest) = searchFrom M r (u.reverse ++ before) rest := by
  induction u generalizing before with
  | nil => rfl
  | cons x u ih =>
    have hnone : matchAt M r false before (x :: (u ++ rest)) = none := by
      rw [matchAt_eq, Option.map_eq_none_iff, first_eq_none_iff]
      exact h [] (x :: u) rfl (List.cons_ne_nil _ _)
    rw [List.cons_append, searchFrom, hnone]
    rw [ih (x :: before) fun v w hvw hw ↦ ?_]
    · simp
    · have hlater := h (x :: v) w (by rw [hvw, List.cons_append]) hw
      rwa [List.reverse_cons, List.append_assoc] at hlater

theorem searchFrom_first {r : Re C A} {before rest : List α} {t : State α}
    (h : first M r ⟨before, rest, []⟩ = some t) :
    searchFrom M r before rest =
      some ⟨before, rest.take (rest.length - t.after.length), t⟩ := by
  have hmatch := matchAt_eq (M := M) r before rest
  rw [h, Option.map_some] at hmatch
  cases rest with
  | nil => rw [searchFrom, hmatch]
  | cons x rest => rw [searchFrom, hmatch]

theorem mem_run_of_matchAt {r : Re C A} {before text : List α} {m : Found α}
    (h : matchAt M r false before text = some m) : m.before = before ∧ m.stop ∈ run M r ⟨before, text, []⟩ := by
  rw [matchAt_eq] at h
  obtain ⟨t, ht, rfl⟩ := Option.map_eq_some_iff.mp h
  exact ⟨rfl, List.mem_of_mem_head? ht⟩

/-- What a search finds begins where a run does, and no run begins in front of it. -/
theorem searchFrom_eq_some {r : Re C A} {before text : List α} {m : Found α}
    (h : searchFrom M r before text = some m) :
    ∃ prior rest, text = prior ++ rest ∧ m.before = prior.reverse ++ before ∧
      m.stop ∈ run M r ⟨prior.reverse ++ before, rest, []⟩ ∧
      ∀ v w, prior = v ++ w → w ≠ [] → run M r ⟨v.reverse ++ before, w ++ rest, []⟩ = [] := by
  have hnothing : ∀ v w : List α, [] = v ++ w → w ≠ [] → False := fun v w hvw hw ↦
    hw (List.append_eq_nil_iff.mp hvw.symm).2
  induction text generalizing before with
  | nil =>
    rw [searchFrom] at h
    obtain ⟨hbefore, hstop⟩ := mem_run_of_matchAt h
    exact ⟨[], [], rfl, hbefore, hstop, fun v w hvw hw ↦ (hnothing v w hvw hw).elim⟩
  | cons x text ih =>
    rw [searchFrom] at h
    cases hm : matchAt M r false before (x :: text) with
    | some found =>
      rw [hm] at h
      obtain rfl := Option.some.inj h
      obtain ⟨hbefore, hstop⟩ := mem_run_of_matchAt hm
      exact ⟨[], x :: text, rfl, hbefore, hstop, fun v w hvw hw ↦ (hnothing v w hvw hw).elim⟩
    | none =>
      rw [hm] at h
      obtain ⟨prior, rest, rfl, hbefore, hstop, hno⟩ := ih h
      refine ⟨x :: prior, rest, rfl, by rw [hbefore]; simp, by simpa using hstop, fun v w hvw hw ↦ ?_⟩
      cases v with
      | nil =>
        obtain rfl : x :: prior = w := hvw
        rw [matchAt_eq, Option.map_eq_none_iff, first_eq_none_iff] at hm
        exact hm
      | cons y v =>
        obtain ⟨rfl, rfl⟩ := List.cons_eq_cons.mp hvw
        simpa using hno v w rfl hw

end FourCE.Library.Regex

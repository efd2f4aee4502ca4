import Mathlib.Data.List.Nodup
import FourCE.Timers.Task

/-!
# A timer fires at most once

Claim ids are drawn once and handed to one task each, so one task at most finds a row running under its
claim.  It alone changes the row until it gives the claim back or appends the prompt, and no row leaves
`completed`, `error` or `cancelled` for a state a prompt is appended from.
-/

namespace FourCE.Timers

open FourCE.Library FourCE.Python

/-! ## Claims in the log -/

abbrev Log := List (ℕ × (c : Command) × Reply c)

/-- The claims that tasks were started with, each with its thread. -/
def taken (l : Log) : List (ℕ × PyStr × PyStr) :=
  l.filterMap fun
    | (i, ⟨.takeTask _, task⟩) => some (i, task)
    | _ => none

/-- Whether an entry of the log is the prompt of `t` put in the parent chat. -/
def appends (t : PyStr) : ℕ × (c : Command) × Reply c → Bool
  | (_, ⟨.deliver d, (delivered : Delivered)⟩) => decide (d.timer_id = t ∧ delivered = .appended)
  | _ => false

def appended (t : PyStr) (l : Log) : ℕ := l.countP (appends t)

/-- The ids of all claims made: those a worker holds, those of its tasks and those of running tasks. -/
def ids (s : Store) (l : Log) : List PyStr :=
  (s.claimed ++ s.tasks ++ taken l).map fun c ↦ c.2.2

/-- The status of a row before and after a turn, with the number of prompts appended. -/
inductive Turned : Option Status → Option Status → ℕ → ℕ → Prop
  | same {st : Option Status} {n : ℕ} : Turned st st n n
  | created {n : ℕ} : Turned none (some .pending) n n
  | claimed {n : ℕ} : Turned (some .pending) (some .running) n n
  | cancelled {n : ℕ} : Turned (some .pending) (some .cancelled) n n
  | requeued {n : ℕ} : Turned (some .running) (some .pending) n n
  | failed {n : ℕ} : Turned (some .running) (some .error) n n
  | delivered {n : ℕ} : Turned (some .running) (some .completed) n (n + 1)
  | unanswered {n : ℕ} : Turned (some .completed) (some .error) n n

/-- The row of `t` is `status` under the claim. -/
def Held (s : Store) (t claim : PyStr) (st : Status) : Prop :=
  ∃ timer, s.timers t = some timer ∧ timer.status = st ∧ timer.timer_claim_id = some claim

/-- How far a thread has come: what it may still do is what its hold on the row allows. -/
def Stage (i : ℕ) (rest : Client Unit) (s : Store) (l : Log) : Prop :=
  Fresh rest ∨ ∃ t claim, (i, t, claim) ∈ taken l ∧ (Waiting t claim rest ∨
    (Owning t rest ∧ Held s t claim .running) ∨ (Spent t rest ∧ Held s t claim .completed))

/-- What all threads keep. -/
structure Ledger (uuid : ℕ → PyStr) (s : Store) (l : Log) : Prop where
  nodup : (ids s l).Nodup
  drawn : ∀ claim ∈ ids s l, ∃ n < s.drawn, claim = uuid n
  once : ∀ t, appended t l = 0 ∨
    (appended t l = 1 ∧ (status s t = some .completed ∨ status s t = some .error))

section Entries

variable {c : Command} {r : Reply c} {l : Log} {i : ℕ}

theorem taken_of_ne (hc : ∀ w, c ≠ .takeTask w) : taken (l ++ [(i, ⟨c, r⟩)]) = taken l := by
  unfold taken
  rw [List.filterMap_append]
  cases c with
  | takeTask w => exact absurd rfl (hc w)
  | _ => exact List.append_nil _

theorem taken_takeTask (w : ℕ) (task : PyStr × PyStr) :
    taken (l ++ [(i, ⟨.takeTask w, task⟩)]) = taken l ++ [(i, task)] := by
  unfold taken
  rw [List.filterMap_append]
  rfl

theorem mem_taken (e : ℕ × (c : Command) × Reply c) {x : ℕ × PyStr × PyStr} (h : x ∈ taken l) :
    x ∈ taken (l ++ [e]) := by
  unfold taken
  rw [List.filterMap_append]
  exact List.mem_append_left _ h

theorem appended_concat (t : PyStr) (e : ℕ × (c : Command) × Reply c) :
    appended t (l ++ [e]) = appended t l + if appends t e then 1 else 0 := by
  unfold appended
  rw [List.countP_append, List.countP_singleton]

theorem appended_of_ne (hc : ∀ d, c ≠ .deliver d) (t : PyStr) :
    appended t (l ++ [(i, ⟨c, r⟩)]) = appended t l := by
  rw [appended_concat]
  cases c with
  | deliver d => exact absurd rfl (hc d)
  | _ => rfl

theorem appended_kept (t : PyStr) {d : Delivery} {delivered : Delivered}
    (h : delivered ≠ .appended) :
    appended t (l ++ [(i, ⟨.deliver d, delivered⟩)]) = appended t l := by
  have hnot : appends t (i, ⟨.deliver d, delivered⟩) = false := decide_eq_false fun h' ↦ h h'.2
  rw [appended_concat, hnot]
  rfl

end Entries

section Ids

variable {uuid : ℕ → PyStr} {s s' : Store} {l : Log} {i : ℕ}

theorem perm_cons_eraseP {α : Type} {p : α → Bool} {xs : List α} {x : α} (h : xs.find? p = some x) :
    xs.Perm (x :: xs.eraseP p) := by
  induction xs with
  | nil => cases h
  | cons y ys ih =>
    by_cases hy : p y
    · rw [List.find?_cons_of_pos hy] at h
      cases h
      rw [List.eraseP_cons_of_pos hy]
    · rw [List.find?_cons_of_neg hy] at h
      rw [List.eraseP_cons_of_neg hy]
      exact ((ih h).cons y).trans (.swap x y _)

theorem map_claims (drawn : ℕ) (rows : List PyStr) :
    (claims uuid drawn rows).map Prod.snd = (List.range' drawn rows.length).map uuid := by
  unfold claims
  rw [List.map_map, List.range'_eq_map_range, List.map_map]
  apply List.ext_getElem
  · simp
  · intro n h h'
    simp

theorem ids_kept {c : Command} {r : Reply c} (hc : ∀ w, c ≠ .takeTask w)
    (hclaimed : s'.claimed = s.claimed) (htasks : s'.tasks = s.tasks) :
    (ids s' (l ++ [(i, ⟨c, r⟩)])).Perm (ids s l ++ (List.range' s.drawn 0).map uuid) := by
  unfold ids
  rw [taken_of_ne hc, hclaimed, htasks, List.range'_zero, List.map_nil, List.append_nil]

theorem eraseP_append_perm {α : Type} {p : α → Bool} {xs : List α} {x : α}
    (h : xs.find? p = some x) (ys : List α) : (xs.eraseP p ++ (ys ++ [x])).Perm (xs ++ ys) := by
  rw [← List.append_assoc]
  exact (List.perm_append_singleton x _).trans ((perm_cons_eraseP h).symm.append_right ys)

/-- A claim adds the ids it draws; a task only moves its own along. -/
theorem ids_step {c : Command} {r : Reply c} (h : exec uuid c s = some (r, s')) :
    ∃ n, s.drawn + n ≤ s'.drawn ∧
      (ids s' (l ++ [(i, ⟨c, r⟩)])).Perm (ids s l ++ (List.range' s.drawn n).map uuid) := by
  cases c with
  | claim worker now limit rows =>
    obtain ⟨-, rfl⟩ := exec_claim h
    refine ⟨rows.length, Nat.le_refl _, ?_⟩
    unfold ids
    rw [taken_of_ne (by simp), ← map_claims]
    simp only [List.map_append, List.map_map, List.append_assoc]
    exact List.Perm.append_left _ (List.perm_append_comm.trans (by simp [Function.comp_def]))
  | createTask worker =>
    obtain ⟨c, hc, rfl⟩ := exec_createTask h
    refine ⟨0, Nat.le_refl _, ?_⟩
    unfold ids
    rw [taken_of_ne (by simp), List.range'_zero, List.map_nil, List.append_nil]
    exact ((eraseP_append_perm hc s.tasks).append_right _).map _
  | takeTask worker =>
    obtain ⟨hc, rfl⟩ := exec_takeTask h
    refine ⟨0, Nat.le_refl _, ?_⟩
    have hmove := (eraseP_append_perm hc (taken l)).map fun c ↦ c.2.2
    have htaken : taken (l ++ [(i, ⟨.takeTask worker, r⟩)]) = taken l ++ [((i, r) : ℕ × PyStr × PyStr)] :=
      taken_takeTask worker r
    unfold ids
    rw [htaken, List.range'_zero, List.map_nil, List.append_nil]
    simp only [List.map_append, List.append_assoc] at hmove ⊢
    exact List.Perm.append_left _ hmove
  | insert id new =>
    obtain ⟨-, rfl⟩ := exec_insert h
    exact ⟨0, Nat.le_refl _, ids_kept (by simp) rfl rfl⟩
  | deliver d =>
    rcases exec_deliver h with ⟨-, rfl⟩ | ⟨-, rfl⟩ | ⟨-, -, -, rfl⟩ <;>
      exact ⟨0, Nat.le_refl _, ids_kept (by simp) rfl rfl⟩
  | uuid4 =>
    cases h
    exact ⟨0, Nat.le_succ _, ids_kept (by simp) rfl rfl⟩
  | _ =>
    cases h
    exact ⟨0, Nat.le_refl _, ids_kept (by simp) rfl rfl⟩

theorem Ledger.nodup_step (huuid : Function.Injective uuid) (hl : Ledger uuid s l) {c : Command}
    {r : Reply c} (h : exec uuid c s = some (r, s')) : (ids s' (l ++ [(i, ⟨c, r⟩)])).Nodup := by
  obtain ⟨n, -, hperm⟩ := ids_step (i := i) (l := l) h
  rw [hperm.nodup_iff, List.nodup_append]
  refine ⟨hl.nodup, List.Nodup.map huuid (List.nodup_range' 1), ?_⟩
  rintro claim hold _ hnew rfl
  obtain ⟨m, hm, rfl⟩ := hl.drawn claim hold
  obtain ⟨m', hm', he⟩ := List.mem_map.mp hnew
  have hrange := List.mem_range'_1.mp hm'
  have hsame := huuid he
  omega

theorem Ledger.drawn_step (hl : Ledger uuid s l) {c : Command} {r : Reply c}
    (h : exec uuid c s = some (r, s')) {claim : PyStr} (hclaim : claim ∈ ids s' (l ++ [(i, ⟨c, r⟩)])) :
    ∃ n < s'.drawn, claim = uuid n := by
  obtain ⟨n, hn, hperm⟩ := ids_step (i := i) (l := l) h
  rcases List.mem_append.mp (hperm.mem_iff.mp hclaim) with hold | hnew
  · obtain ⟨m, hm, rfl⟩ := hl.drawn claim hold
    exact ⟨m, by omega, rfl⟩
  · obtain ⟨m, hm, rfl⟩ := List.mem_map.mp hnew
    have hrange := List.mem_range'_1.mp hm
    exact ⟨m, by omega, rfl⟩

/-- One task for a claim. -/
theorem Ledger.thread_unique (hl : Ledger uuid s l) {j : ℕ} {t t' claim : PyStr}
    (h : (i, t, claim) ∈ taken l) (h' : (j, t', claim) ∈ taken l) : i = j := by
  have hnodup : ((taken l).map fun c ↦ c.2.2).Nodup := by
    have hall := hl.nodup
    unfold ids at hall
    rw [List.map_append] at hall
    exact (List.nodup_append.mp hall).2.1
  exact congrArg Prod.fst (List.inj_on_of_nodup_map hnodup h h' rfl)

end Ids

/-! ## What a thread's command does to a row -/

section Acting

variable {uuid : ℕ → PyStr} {s s' : Store} {l : Log} {i : ℕ}

theorem Held.unique {t claim claim' : PyStr} {st st' : Status} (h : Held s t claim st)
    (h' : Held s t claim' st') : claim = claim' ∧ st = st' := by
  obtain ⟨timer, ht, hst, hclaim⟩ := h
  obtain ⟨timer', ht', hst', hclaim'⟩ := h'
  have hsame : timer = timer' := Option.some.inj (ht.symm.trans ht')
  subst hsame
  exact ⟨Option.some.inj (hclaim.symm.trans hclaim'), hst.symm.trans hst'⟩

theorem Held.kept {c : Command} {r : Reply c} {t claim : PyStr} {st : Status} (hc : ¬ Acts c)
    (h : exec uuid c s = some (r, s')) (hheld : Held s t claim st) (hst : st ≠ .pending) :
    Held s' t claim st := by
  obtain ⟨timer, ht, rfl, hclaim⟩ := hheld
  exact ⟨timer, exec_row hc h ht hst, rfl, hclaim⟩

theorem turned_quiet {c : Command} {r : Reply c} (hc : ¬ Acts c) (h : exec uuid c s = some (r, s'))
    (t : PyStr) (n : ℕ) : Turned (status s t) (status s' t) n n := by
  have hsame : s'.timers t = s.timers t → Turned (status s t) (status s' t) n n := by
    intro hrow
    unfold status
    rw [hrow]
    exact .same
  cases c with
  | claim worker now limit rows =>
    obtain ⟨hrows, rfl⟩ := exec_claim h
    rcases ht : s.timers t with _ | timer
    · exact hsame (by simp [ht])
    · by_cases hpending : timer.status = .pending
      · rcases claimTimer_status (t := t) (claims uuid s.drawn rows) timer with hrow | hrunning
        · exact hsame (by simp [ht, hrow])
        · simp only [status, ht, Option.map_some, hpending, hrunning]
          exact .claimed
      · exact hsame (by simp [ht, claimTimer_of_ne hrows ht hpending])
  | cancel chat event user =>
    cases h
    rcases ht : s.timers t with _ | timer
    · exact hsame (by simp [ht])
    · rcases cancelTimer_cases chat event user timer with hrow | ⟨hpending, hcancelled⟩
      · exact hsame (by simp [ht, hrow])
      · simp only [status, ht, Option.map_some, hpending, hcancelled]
        exact .cancelled
  | insert id new =>
    obtain ⟨hid, rfl⟩ := exec_insert h
    by_cases hne : t = id
    · subst hne
      simp only [status, hid, Function.update_self, Option.map_none, Option.map_some,
        not_not.mp hc]
      exact .created
    · exact hsame (Function.update_of_ne hne _ _)
  | createTask worker =>
    obtain ⟨c, -, rfl⟩ := exec_createTask h
    exact .same
  | takeTask => exact absurd trivial hc
  | setState => exact absurd trivial hc
  | deliver => exact absurd trivial hc
  | _ =>
    cases h
    exact .same

/-- Rows that others hold stay as they are. -/
def Leaves (i : ℕ) (s s' : Store) (l : Log) : Prop :=
  ∀ t claim st, st ≠ .pending → Held s t claim st → Held s' t claim st ∨ (i, t, claim) ∈ taken l

/-- What thread `i` did with a command: the rows move, those of others are left alone, and the thread
comes as far as its hold allows. -/
structure Advance (i : ℕ) (c : Command) (r : Reply c) (rest : Client Unit) (s s' : Store) (l : Log) :
    Prop where
  turned : ∀ t, Turned (status s t) (status s' t) (appended t l) (appended t (l ++ [(i, ⟨c, r⟩)]))
  leaves : Leaves i s s' l
  stage : Stage i rest s' (l ++ [(i, ⟨c, r⟩)])

theorem advance_quiet {c : Command} {r : Reply c} {rest : Client Unit} (hc : ¬ Acts c)
    (h : exec uuid c s = some (r, s')) (hstage : Stage i rest s' (l ++ [(i, ⟨c, r⟩)])) :
    Advance i c r rest s s' l where
  turned t := by
    have happ : appended t (l ++ [(i, ⟨c, r⟩)]) = appended t l := by
      apply appended_of_ne
      rintro d rfl
      exact hc trivial
    rw [happ]
    exact turned_quiet hc h t _
  leaves _ _ _ hst hheld := Or.inl (hheld.kept hc h hst)
  stage := hstage

/-- A command on the row the thread holds. -/
theorem advance_change {c : Command} {r : Reply c} {rest : Client Unit} {t claim : PyStr}
    {st : Status} {f : Timer → Timer} (hheld : Held s t claim st) (htaken : (i, t, claim) ∈ taken l)
    (hs : s'.timers = changeTimer s t f) (hother : ∀ t', t' ≠ t → appends t' (i, ⟨c, r⟩) = false)
    (hrow : ∀ timer, timer.status = st → Turned (some st) (some (f timer).status) (appended t l)
      (appended t (l ++ [(i, ⟨c, r⟩)])))
    (hstage : Stage i rest s' (l ++ [(i, ⟨c, r⟩)])) : Advance i c r rest s s' l where
  turned t' := by
    by_cases ht : t' = t
    · subst ht
      obtain ⟨timer, hin, rfl, -⟩ := hheld
      have hafter : s'.timers t' = some (f timer) := by rw [hs, changeTimer_self hin]
      rw [status_eq hin, status_eq hafter]
      exact hrow timer rfl
    · unfold status
      rw [appended_concat, hother t' ht, hs, changeTimer_of_ne f ht]
      exact .same
  leaves t' claim' st' _ hheld' := by
    by_cases ht : t' = t
    · subst ht
      obtain ⟨rfl, -⟩ := hheld.unique hheld'
      exact Or.inr htaken
    · obtain ⟨timer, hin, hst, hclaim⟩ := hheld'
      exact Or.inl ⟨timer, by rw [hs, changeTimer_of_ne f ht, hin], hst, hclaim⟩
  stage := hstage

theorem stage_calm {rest : Client Unit} (h : Calm rest) (s : Store) (l : Log) : Stage i rest s l :=
  Or.inl (.calm h)

theorem advance_calm {c : Command} {r : Reply c} {k : Reply c → Client Unit} (hcalm : Calm (.cmd c k))
    (h : exec uuid c s = some (r, s')) : Advance i c r (k r) s s' l :=
  advance_quiet (hcalm.after r).1 h (stage_calm (hcalm.after r).2 _ _)

theorem advance_fail {t claim e : PyStr} {st : Status} {r : Unit} {rest : Client Unit}
    (hheld : Held s t claim st) (hst : st = .running ∨ st = .completed)
    (htaken : (i, t, claim) ∈ taken l) (hrest : Calm rest)
    (h : exec uuid (.setState t .error e) s = some (r, s')) :
    Advance i (.setState t .error e) r rest s s' l := by
  have happ : appended t (l ++ [(i, ⟨.setState t .error e, r⟩)]) = appended t l :=
    appended_of_ne (by simp) t
  cases h
  refine advance_change hheld htaken rfl (fun _ _ ↦ rfl) (fun timer _ ↦ ?_) (stage_calm hrest _ _)
  rw [happ]
  rcases hst with rfl | rfl
  · exact .failed
  · exact .unanswered

theorem advance_fresh {c : Command} {r : Reply c} {k : Reply c → Client Unit}
    (hfresh : Fresh (.cmd c k)) (h : exec uuid c s = some (r, s')) :
    Advance i c r (k r) s s' l := by
  cases hfresh with
  | calm hcalm => exact advance_calm hcalm h
  | @take w k hwait =>
    obtain ⟨-, rfl⟩ := exec_takeTask h
    refine ⟨fun t ↦ ?_, fun _ _ _ _ hheld ↦ Or.inl hheld, ?_⟩
    · rw [appended_of_ne (by simp)]
      exact .same
    · have htaken : taken (l ++ [(i, ⟨.takeTask w, r⟩)]) = taken l ++ [((i, r) : ℕ × PyStr × PyStr)] :=
        taken_takeTask w r
      refine Or.inr ⟨r.1, r.2, ?_, Or.inl (hwait r.1 r.2)⟩
      rw [htaken]
      exact List.mem_append_right _ (List.mem_singleton_self _)

theorem advance_waiting {t claim : PyStr} {c : Command} {r : Reply c} {k : Reply c → Client Unit}
    (htaken : (i, t, claim) ∈ taken l) (hwait : Waiting t claim (.cmd c k))
    (h : exec uuid c s = some (r, s')) : Advance i c r (k r) s s' l := by
  cases hwait with
  | calm hcalm => exact advance_calm hcalm h
  | quiet hc hnext =>
    exact advance_quiet hc h (Or.inr ⟨t, claim, mem_taken _ htaken, Or.inl (hnext r)⟩)
  | @read k hown hother =>
    cases h
    have hread : exec uuid (.getTimer t) s = some (s.timers t, s) := rfl
    refine advance_quiet id hread ?_
    by_cases hmine : Held s t claim .running
    · obtain ⟨timer, ht, hst, hclaim⟩ := hmine
      refine Or.inr ⟨t, claim, mem_taken _ htaken, Or.inr (Or.inl ⟨?_, timer, ht, hst, hclaim⟩)⟩
      rw [ht]
      exact hown timer hst hclaim
    · refine stage_calm (hother _ fun timer ht hst hclaim ↦ ?_) _ _
      exact hmine ⟨timer, ht, hst, hclaim⟩

theorem advance_owning {t claim : PyStr} {c : Command} {r : Reply c} {k : Reply c → Client Unit}
    (htaken : (i, t, claim) ∈ taken l) (hown : Owning t (.cmd c k)) (hheld : Held s t claim .running)
    (h : exec uuid c s = some (r, s')) : Advance i c r (k r) s s' l := by
  cases hown with
  | calm hcalm => exact advance_calm hcalm h
  | quiet hc hnext =>
    exact advance_quiet hc h (Or.inr ⟨t, claim, mem_taken _ htaken,
      Or.inr (Or.inl ⟨hnext r, hheld.kept hc h (by simp)⟩)⟩)
  | fail hnext => exact advance_fail hheld (Or.inl rfl) htaken (hnext r) h
  | @deliver d k hd hnone hback hdone =>
    subst hd
    rcases exec_deliver h with ⟨rfl, rfl⟩ | ⟨rfl, rfl⟩ | ⟨rfl, chat, -, rfl⟩
    · refine ⟨fun t ↦ ?_, fun _ _ _ _ hother ↦ Or.inl hother,
        Or.inr ⟨d.timer_id, claim, mem_taken _ htaken, Or.inr (Or.inl ⟨hnone, hheld⟩)⟩⟩
      rw [appended_kept _ (by simp)]
      exact .same
    · refine advance_change hheld htaken rfl (fun t' _ ↦ by simp [appends]) (fun timer _ ↦ ?_)
        (stage_calm hback _ _)
      rw [appended_kept _ (by simp)]
      exact .requeued
    · refine advance_change hheld htaken rfl
        (fun t' ht ↦ decide_eq_false fun hsame ↦ ht hsame.1.symm) (fun timer _ ↦ ?_)
        (Or.inr ⟨d.timer_id, claim, mem_taken _ htaken, Or.inr (Or.inr ⟨hdone, ?_⟩)⟩)
      · have happ : appends d.timer_id (i, ⟨.deliver d, Delivered.appended⟩) = true :=
          decide_eq_true ⟨rfl, rfl⟩
        rw [appended_concat, happ]
        exact .delivered
      · obtain ⟨timer, ht, -, hclaim⟩ := hheld
        exact ⟨_, changeTimer_self ht, rfl, hclaim⟩

theorem advance_spent {t claim : PyStr} {c : Command} {r : Reply c} {k : Reply c → Client Unit}
    (htaken : (i, t, claim) ∈ taken l) (hspent : Spent t (.cmd c k))
    (hheld : Held s t claim .completed) (h : exec uuid c s = some (r, s')) :
    Advance i c r (k r) s s' l := by
  cases hspent with
  | calm hcalm => exact advance_calm hcalm h
  | quiet hc hnext =>
    exact advance_quiet hc h (Or.inr ⟨t, claim, mem_taken _ htaken,
      Or.inr (Or.inr ⟨hnext r, hheld.kept hc h (by simp)⟩)⟩)
  | fail hnext => exact advance_fail hheld (Or.inr rfl) htaken (hnext r) h

theorem advance {c : Command} {r : Reply c} {k : Reply c → Client Unit}
    (hstage : Stage i (.cmd c k) s l) (h : exec uuid c s = some (r, s')) :
    Advance i c r (k r) s s' l := by
  rcases hstage with hfresh | ⟨t, claim, htaken, hwait | ⟨hown, hheld⟩ | ⟨hspent, hheld⟩⟩
  · exact advance_fresh hfresh h
  · exact advance_waiting htaken hwait h
  · exact advance_owning htaken hown hheld h
  · exact advance_spent htaken hspent hheld h

/-- What another thread may still do stays what its hold allows. -/
theorem Stage.other {c : Command} {r : Reply c} {rest : Client Unit} {j : ℕ} (hl : Ledger uuid s l)
    (hadv : Leaves i s s' l) (hij : j ≠ i) (hstage : Stage j rest s l) :
    Stage j rest s' (l ++ [(i, ⟨c, r⟩)]) := by
  have hkept : ∀ t claim st, (j, t, claim) ∈ taken l → st ≠ .pending → Held s t claim st →
      Held s' t claim st := by
    intro t claim st htaken hst hheld
    rcases hadv t claim st hst hheld with hsame | hmine
    · exact hsame
    · exact absurd (hl.thread_unique htaken hmine) hij
  rcases hstage with hfresh | ⟨t, claim, htaken, hwait | ⟨hown, hheld⟩ | ⟨hspent, hheld⟩⟩
  · exact Or.inl hfresh
  · exact Or.inr ⟨t, claim, mem_taken _ htaken, Or.inl hwait⟩
  · exact Or.inr ⟨t, claim, mem_taken _ htaken,
      Or.inr (Or.inl ⟨hown, hkept t claim _ htaken (by simp) hheld⟩)⟩
  · exact Or.inr ⟨t, claim, mem_taken _ htaken,
      Or.inr (Or.inr ⟨hspent, hkept t claim _ htaken (by simp) hheld⟩)⟩

theorem Turned.of_cancelled {st : Option Status} {n n' : ℕ} (h : Turned (some .cancelled) st n n') :
    st = some .cancelled := by
  cases h
  rfl

theorem Turned.once {st st' : Option Status} {n n' : ℕ} (h : Turned st st' n n')
    (hn : n = 0 ∨ (n = 1 ∧ (st = some .completed ∨ st = some .error))) :
    n' = 0 ∨ (n' = 1 ∧ (st' = some .completed ∨ st' = some .error)) := by
  cases h <;> simp_all

end Acting

/-! ## Every schedule -/

theorem keeps {uuid : ℕ → PyStr} (huuid : Function.Injective uuid) :
    Pool.Keeps (exec uuid) program (fun _ _ _ _ ↦ True) (Ledger uuid)
      (fun i _ rest s l ↦ Stage i rest s l) where
  begin i op s l _ := Or.inl (program_fresh op)
  own i op c k r s s' l _ h _ hl hstage := by
    have hadv := advance hstage h
    refine ⟨⟨hl.nodup_step huuid h, fun claim hclaim ↦ hl.drawn_step h hclaim, fun t ↦ ?_⟩,
      hadv.stage⟩
    exact (hadv.turned t).once (hl.once t)
  other i op c k r s s' l j op' rest hij h _ hl hstage hother :=
    Stage.other hl (advance hstage h).leaves hij hother

section Runs

variable {uuid : ℕ → PyStr} {s : Store}

variable (uuid s) in
/-- The workers start with no claims in hand. -/
def ran (turns : List (Turn Op)) : Pool Store Command Reply Unit Op :=
  Pool.run (exec uuid) program (Pool.idle s) turns

theorem ledger_idle (hclaimed : s.claimed = []) (htasks : s.tasks = []) : Ledger uuid s [] := by
  have hids : ids s [] = [] := by
    unfold ids
    rw [hclaimed, htasks]
    rfl
  refine ⟨?_, fun claim hclaim ↦ ?_, fun t ↦ Or.inl rfl⟩
  · rw [hids]
    exact List.nodup_nil
  · rw [hids] at hclaim
    cases hclaim

variable (huuid : Function.Injective uuid) (hclaimed : s.claimed = []) (htasks : s.tasks = [])

include huuid hclaimed htasks

theorem ran_kept (turns : List (Turn Op)) :
    Ledger uuid (ran uuid s turns).store (ran uuid s turns).log ∧
      ∀ (i : ℕ) (u : Thread Command Reply Unit Op), (ran uuid s turns).threads[i]? = some u →
        Stage i u.rest (ran uuid s turns).store (ran uuid s turns).log :=
  (keeps huuid).run (ledger_idle hclaimed htasks) turns fun _ turn _ _ ↦ by
    cases turn with
    | start => trivial
    | resume => exact fun _ _ _ _ ↦ trivial

/-- What one more turn does to a row. -/
theorem ran_turned (turns : List (Turn Op)) (turn : Turn Op) (t : PyStr) :
    Turned (status (ran uuid s turns).store t) (status (ran uuid s (turns ++ [turn])).store t)
      (appended t (ran uuid s turns).log) (appended t (ran uuid s (turns ++ [turn])).log) := by
  have hkept := ran_kept huuid hclaimed htasks turns
  unfold ran at hkept ⊢
  rw [Pool.run_concat]
  rcases Pool.step_cases (exec uuid) program (Pool.run (exec uuid) program (Pool.idle s) turns) turn with
    ⟨op, -, hstep⟩ | ⟨i, op, c, k, r, s', -, hi, hc, hstep⟩ | hstep
  · rw [hstep]
    exact .same
  · rw [hstep]
    exact (advance (hkept.2 i _ hi) hc).turned t
  · rw [hstep]
    exact .same

theorem cancelled_stays (turns more : List (Turn Op)) {t : PyStr}
    (h : status (ran uuid s turns).store t = some .cancelled) :
    status (ran uuid s (turns ++ more)).store t = some .cancelled := by
  induction more using List.reverseRecOn with
  | nil => rwa [List.append_nil]
  | append_singleton more turn ih =>
    have hturn := ran_turned huuid hclaimed htasks (turns ++ more) turn t
    rw [ih] at hturn
    rw [← List.append_assoc]
    exact hturn.of_cancelled

end Runs

/-- The way of a timer's status. -/
inductive Moves : Status → Status → Prop
  | claimed : Moves .pending .running
  | cancelled : Moves .pending .cancelled
  | requeued : Moves .running .pending
  | completed : Moves .running .completed
  | failed : Moves .running .error

/-- A row stays, appears or moves. -/
def Moved (moves : Status → Status → Prop) (st st' : Option Status) : Prop :=
  st' = st ∨ (st = none ∧ st' = some .pending) ∨ ∃ a b, st = some a ∧ st' = some b ∧ moves a b

theorem Turned.moved {st st' : Option Status} {n n' : ℕ} (h : Turned st st' n n') :
    Moved (fun a b ↦ Moves a b ∨ (a = .completed ∧ b = .error)) st st' := by
  cases h with
  | same => exact Or.inl rfl
  | created => exact Or.inr (Or.inl ⟨rfl, rfl⟩)
  | claimed => exact Or.inr (Or.inr ⟨_, _, rfl, rfl, Or.inl .claimed⟩)
  | cancelled => exact Or.inr (Or.inr ⟨_, _, rfl, rfl, Or.inl .cancelled⟩)
  | requeued => exact Or.inr (Or.inr ⟨_, _, rfl, rfl, Or.inl .requeued⟩)
  | failed => exact Or.inr (Or.inr ⟨_, _, rfl, rfl, Or.inl .failed⟩)
  | delivered => exact Or.inr (Or.inr ⟨_, _, rfl, rfl, Or.inl .completed⟩)
  | unanswered => exact Or.inr (Or.inr ⟨_, _, rfl, rfl, Or.inr ⟨rfl, rfl⟩⟩)

/-- In every run the prompt is appended at most once, and not at all when the timer is cancelled at
some time; the status moves along its way, and from `completed` to `error` when the completion of the
appended prompt fails. -/
theorem fires_at_most_once {uuid : ℕ → PyStr} (huuid : Function.Injective uuid) {s : Store}
    (hclaimed : s.claimed = []) (htasks : s.tasks = []) (turns : List (Turn Op)) (t : PyStr) :
    appended t (ran uuid s turns).log ≤ 1 ∧
      (status (ran uuid s turns).store t = some .cancelled → ∀ more,
        status (ran uuid s (turns ++ more)).store t = some .cancelled ∧
          appended t (ran uuid s (turns ++ more)).log = 0) ∧
      ∀ turn, Moved (fun a b ↦ Moves a b ∨ (a = .completed ∧ b = .error))
        (status (ran uuid s turns).store t) (status (ran uuid s (turns ++ [turn])).store t) := by
  refine ⟨?_, fun hcancelled more ↦ ?_, fun turn ↦ ?_⟩
  · have honce := (ran_kept huuid hclaimed htasks turns).1.once t
    omega
  · have hstays := cancelled_stays huuid hclaimed htasks turns more hcancelled
    refine ⟨hstays, ?_⟩
    rcases (ran_kept huuid hclaimed htasks (turns ++ more)).1.once t with hnone | ⟨-, hdone⟩
    · exact hnone
    · rw [hstays] at hdone
      simp at hdone
  · exact (ran_turned huuid hclaimed htasks turns turn t).moved

/-! ### A completion that fails -/

/-- Draws that differ in length. -/
def drawnIds (n : ℕ) : PyStr := List.replicate n 0x78

theorem drawnIds_injective : Function.Injective drawnIds := fun m n h ↦ by
  have hlength := congrArg List.length h
  unfold drawnIds at hlength
  rwa [List.length_replicate, List.length_replicate] at hlength

/-- One timer, due at 5, under a chat of its user's. -/
def oneTimer : Store where
  timers id := if id = py "t" then
    some ⟨py "u", some 5, .pending, none, 5, py "c", none, some (.text (py "look")), some (py "m"),
      [py "chat.read"], none⟩
    else none
  chats id := if id = py "c" then some ⟨py "u", [], none⟩ else none
  users _ := true
  busy _ := false
  drawn := 0
  claimed := []
  tasks := []

/-- A round that claims the timer, and its task up to where the answer was asked for in vain. -/
def unanswered : List (Turn Op) :=
  [.start (.round 0 10 10 [py "t"]), .resume 0, .resume 0, .start (.task 0 20 (some (py "no model")))] ++
    List.replicate 13 (.resume 1)

theorem fires_at_most_once_unanswered :
    appended (py "t") (ran drawnIds oneTimer unanswered).log ≤ 1 ∧
      (status (ran drawnIds oneTimer unanswered).store (py "t") = some .cancelled → ∀ more,
        status (ran drawnIds oneTimer (unanswered ++ more)).store (py "t") = some .cancelled ∧
          appended (py "t") (ran drawnIds oneTimer (unanswered ++ more)).log = 0) ∧
      ∀ turn, Moved (fun a b ↦ Moves a b ∨ (a = .completed ∧ b = .error))
        (status (ran drawnIds oneTimer unanswered).store (py "t"))
        (status (ran drawnIds oneTimer (unanswered ++ [turn])).store (py "t")) :=
  fires_at_most_once drawnIds_injective rfl rfl unanswered (py "t")

/-- A completed timer whose completion raises goes to `error`. -/
theorem completed_fails :
    ¬ ∀ (uuid : ℕ → PyStr) (s : Store), Function.Injective uuid → s.claimed = [] → s.tasks = [] →
      ∀ turns turn t, Moved Moves (status (ran uuid s turns).store t)
        (status (ran uuid s (turns ++ [turn])).store t) := by
  intro h
  have hmoved := h drawnIds oneTimer drawnIds_injective rfl rfl unanswered (.resume 1) (py "t")
  have hbefore : status (ran drawnIds oneTimer unanswered).store (py "t") = some .completed := by
    decide
  have hafter : status (ran drawnIds oneTimer (unanswered ++ [.resume 1])).store (py "t") =
      some .error := by decide
  rw [hbefore, hafter] at hmoved
  rcases hmoved with hsame | ⟨hnone, -⟩ | ⟨a, b, ha, hb, hmove⟩
  · simp at hsame
  · simp at hnone
  · cases ha
    cases hb
    cases hmove

end FourCE.Timers

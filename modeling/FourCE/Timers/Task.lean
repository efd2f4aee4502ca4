import FourCE.Timers.Schedule

/-!
# What a task may do

A task that found its timer running under its claim appends the prompt once, gives the row back or
marks it; until it found that it does nothing to the row, and what it does after it appended is mark
the row at most once.  All other commands leave alone every row that is not pending.
-/

namespace FourCE.Timers

open FourCE.Library FourCE.Python

/-! ## What a task may still do -/

/-- Takes a task, appends a prompt or sets a state; a new row is pending. -/
def Acts : Command → Prop
  | .takeTask _ => True
  | .insert _ timer => timer.status ≠ .pending
  | .setState _ _ _ => True
  | .deliver _ => True
  | _ => False

def Calm : Client Unit → Prop := Proc.Every fun c _ ↦ ¬ Acts c

/-- After the prompt was appended: the row may be marked once. -/
inductive Spent (t : PyStr) : Client Unit → Prop
  | calm {p : Client Unit} (h : Calm p) : Spent t p
  | quiet {c : Command} {k : Reply c → Client Unit} (hc : ¬ Acts c) (h : ∀ r, Spent t (k r)) :
      Spent t (.cmd c k)
  | fail {e : PyStr} {k : Reply (.setState t .error e) → Client Unit} (h : ∀ r, Calm (k r)) :
      Spent t (.cmd (.setState t .error e) k)

/-- While the row is this task's own: it may be marked, given back, or marked with the prompt
appended. -/
inductive Owning (t : PyStr) : Client Unit → Prop
  | calm {p : Client Unit} (h : Calm p) : Owning t p
  | quiet {c : Command} {k : Reply c → Client Unit} (hc : ¬ Acts c) (h : ∀ r, Owning t (k r)) :
      Owning t (.cmd c k)
  | fail {e : PyStr} {k : Reply (.setState t .error e) → Client Unit} (h : ∀ r, Calm (k r)) :
      Owning t (.cmd (.setState t .error e) k)
  | deliver {d : Delivery} {k : Reply (.deliver d) → Client Unit} (hd : d.timer_id = t)
      (hnone : Owning t (k Delivered.noParent)) (hback : Calm (k Delivered.requeued))
      (hdone : Spent t (k Delivered.appended)) : Owning t (.cmd (.deliver d) k)

/-- Before the row was read: the task goes on only where the row is its own. -/
inductive Waiting (t claim : PyStr) : Client Unit → Prop
  | calm {p : Client Unit} (h : Calm p) : Waiting t claim p
  | quiet {c : Command} {k : Reply c → Client Unit} (hc : ¬ Acts c) (h : ∀ r, Waiting t claim (k r)) :
      Waiting t claim (.cmd c k)
  | read {k : Reply (.getTimer t) → Client Unit}
      (hown : ∀ timer : Timer, timer.status = .running → timer.timer_claim_id = some claim →
        Owning t (k (some timer)))
      (hother : ∀ found : Option Timer, (∀ timer, found = some timer → timer.status = .running →
        timer.timer_claim_id ≠ some claim) → Calm (k found)) : Waiting t claim (.cmd (.getTimer t) k)

theorem calm_ret (a : Unit) : Calm (.ret a) := Proc.every_ret _ a

theorem calm_cmd {c : Command} {k : Reply c → Client Unit} (hc : ¬ Acts c) (hk : ∀ r, Calm (k r)) :
    Calm (.cmd c k) := Proc.every_cmd hc hk

theorem Calm.after {c : Command} {k : Reply c → Client Unit} (h : Calm (.cmd c k)) (r : Reply c) :
    ¬ Acts c ∧ Calm (k r) :=
  ⟨h c k .start, fun c' k' hrest ↦ h c' k' ((Proc.Rest.next r .start).trans hrest)⟩

theorem finish_calm (t : PyStr) : Calm (finish t) := calm_cmd id fun _ ↦ calm_ret _

theorem fail_owning (t e : PyStr) : Owning t (fail t e) := .fail fun _ ↦ finish_calm t

theorem complete_spent (t m a : PyStr) (raises : Option PyStr) : Spent t (complete t m a raises) := by
  refine .quiet id fun _ ↦ .quiet id fun _ ↦ .quiet id fun _ ↦ ?_
  cases raises with
  | none => exact .calm (finish_calm t)
  | some exc => exact .fail fun _ ↦ finish_calm t

theorem deliverPrompt_owning (t : PyStr) (timer : Timer) (prompt : PyStr) (now : ℕ)
    (raises : Option PyStr) : Owning t (deliverPrompt t timer prompt now raises) := by
  refine .quiet id fun (m : PyStr) ↦ .quiet id fun (a : PyStr) ↦ .quiet id fun _ ↦ .deliver rfl ?_ ?_ ?_
  · exact .fail fun _ ↦ calm_cmd id fun _ ↦ finish_calm t
  · exact calm_cmd id fun _ ↦ finish_calm t
  · exact .quiet id fun _ ↦ complete_spent t m a raises

theorem runTimer_owning (t : PyStr) (timer : Timer) (now : ℕ) (raises : Option PyStr) :
    Owning t (runTimer t timer now raises) := by
  refine .quiet id fun (parent : Bool) ↦ ?_
  cases parent with
  | false => exact fail_owning t _
  | true =>
    rcases timer with ⟨_, _, _, _, _, _, _, _ | content, model, _, _⟩
    · exact fail_owning t _
    · refine .quiet id fun (user : Bool) ↦ ?_
      cases user with
      | false => exact fail_owning t _
      | true =>
        cases model with
        | none => exact fail_owning t _
        | some _ => exact deliverPrompt_owning t _ _ now raises

theorem executeDueTimer_waiting (t claim : PyStr) (now : ℕ) (raises : Option PyStr) :
    Waiting t claim (executeDueTimer t (some claim) now raises) := by
  refine .quiet id fun _ ↦ .read ?_ ?_
  · intro timer hstatus hclaim
    show Owning t (if timer.status ≠ .running then _ else _)
    rw [if_neg (not_not.mpr hstatus), if_neg fun h ↦ h.2 hclaim]
    exact runTimer_owning t timer now raises
  · intro found hother
    cases found with
    | none => exact finish_calm t
    | some timer =>
      show Calm (if timer.status ≠ .running then _ else _)
      split_ifs with hstatus hclaim
      · exact finish_calm t
      · exact finish_calm t
      · have hmine : timer.timer_claim_id ≠ some claim := hother timer rfl (not_not.mp hstatus)
        exact absurd ⟨Option.some_ne_none claim, hmine⟩ hclaim

theorem createTasks_calm (worker : ℕ) (claimed : List (PyStr × PyStr)) :
    Calm (createTasks worker claimed) := by
  induction claimed with
  | nil => exact calm_ret _
  | cons _ claimed ih => exact calm_cmd id fun _ ↦ ih

/-- What has not taken its task yet: nothing it does before concerns a row. -/
inductive Fresh : Client Unit → Prop
  | calm {p : Client Unit} (h : Calm p) : Fresh p
  | take {w : ℕ} {k : Reply (.takeTask w) → Client Unit} (h : ∀ t claim, Waiting t claim (k (t, claim))) :
      Fresh (.cmd (.takeTask w) k)

theorem program_fresh (op : Op) : Fresh (program op) := by
  cases op with
  | round worker now limit rows =>
    exact .calm (calm_cmd id fun claimed ↦ createTasks_calm worker claimed)
  | task worker now raises => exact .take fun t claim ↦ executeDueTimer_waiting t claim now raises
  | cancelTimersForChat => exact .calm (calm_cmd id calm_ret)
  | createTimer => exact .calm (calm_cmd (fun h ↦ h rfl) calm_ret)
  | outside => exact .calm (calm_cmd id calm_ret)

/-! ## What a command does -/

section Rows

variable {uuid : ℕ → PyStr} {s s' : Store} {t : PyStr}

theorem exec_claim {worker now limit : ℕ} {rows : List PyStr} {r : List (PyStr × PyStr)}
    (h : exec uuid (.claim worker now limit rows) s = some (r, s')) :
    Returns s now limit rows ∧ s' = { s with
      timers := fun id ↦ (s.timers id).map (claimTimer (claims uuid s.drawn rows) id)
      drawn := s.drawn + rows.length
      claimed := s.claimed ++ (claims uuid s.drawn rows).map fun c ↦ (worker, c) } := by
  simp only [exec] at h
  split_ifs at h with hrows
  cases h
  exact ⟨hrows, rfl⟩

theorem exec_createTask {worker : ℕ} {r : Unit}
    (h : exec uuid (.createTask worker) s = some (r, s')) :
    ∃ c, s.claimed.find? (·.1 = worker) = some c ∧ s' = { s with
      claimed := s.claimed.eraseP (·.1 = worker)
      tasks := s.tasks ++ [c] } := by
  simp only [exec] at h
  split at h
  · next c hc =>
    cases h
    exact ⟨c, hc, rfl⟩
  · cases h

theorem exec_takeTask {worker : ℕ} {r : PyStr × PyStr}
    (h : exec uuid (.takeTask worker) s = some (r, s')) :
    s.tasks.find? (·.1 = worker) = some (worker, r) ∧
      s' = { s with tasks := s.tasks.eraseP (·.1 = worker) } := by
  simp only [exec] at h
  split at h
  · next c hc =>
    cases h
    have hworker : c.1 = worker := by simpa using List.find?_some hc
    subst hworker
    exact ⟨hc, rfl⟩
  · cases h

theorem exec_insert {id : PyStr} {new : Timer} {r : Unit}
    (h : exec uuid (.insert id new) s = some (r, s')) :
    s.timers id = none ∧ s' = { s with timers := Function.update s.timers id (some new) } := by
  simp only [exec] at h
  split at h
  · cases h
  · next hid =>
    cases h
    exact ⟨hid, rfl⟩

/-- The prompt is appended and the row completed, or the row is given back, or nothing happens. -/
theorem exec_deliver {d : Delivery} {r : Delivered} (h : exec uuid (.deliver d) s = some (r, s')) :
    (r = .noParent ∧ s' = s) ∨
      (r = .requeued ∧ s' = { s with timers := changeTimer s d.timer_id requeueTimer }) ∨
      (r = .appended ∧ ∃ chat, ownChat s d.parent_chat_id d.user_id = some chat ∧ s' = { s with
        chats := Function.update s.chats d.parent_chat_id (some (appendPrompt d chat))
        timers := changeTimer s d.timer_id fun timer ↦ { timer with status := .completed } }) := by
  simp only [exec] at h
  split at h
  · cases h
    exact Or.inl ⟨rfl, rfl⟩
  · next chat hchat =>
    split_ifs at h with hbusy
    · cases h
      exact Or.inr (Or.inl ⟨rfl, rfl⟩)
    · cases h
      exact Or.inr (Or.inr ⟨rfl, chat, hchat, rfl⟩)

/-! ## What a command does to a row -/

def status (s : Store) (t : PyStr) : Option Status := (s.timers t).map Timer.status

theorem status_eq {timer : Timer} (h : s.timers t = some timer) : status s t = some timer.status := by
  unfold status
  rw [h]
  rfl

theorem changeTimer_of_ne (f : Timer → Timer) {id : PyStr} (hne : t ≠ id) :
    changeTimer s id f t = s.timers t := Function.update_of_ne hne _ _

theorem changeTimer_self {f : Timer → Timer} {timer : Timer} (h : s.timers t = some timer) :
    changeTimer s t f t = some (f timer) := by
  unfold changeTimer
  rw [Function.update_self, h]
  rfl

/-- A claim takes pending rows. -/
theorem claimTimer_of_ne {now limit : ℕ} {rows : List PyStr} (hrows : Returns s now limit rows)
    {timer : Timer} (ht : s.timers t = some timer) (hne : timer.status ≠ .pending) :
    claimTimer (claims uuid s.drawn rows) t timer = timer := by
  unfold claimTimer
  split
  · next c hfind =>
    have hid : c.1 = t := by simpa using List.find?_some hfind
    have hmem : c.1 ∈ rows := by
      obtain ⟨p, hp, rfl⟩ := List.mem_map.mp (List.mem_of_find?_eq_some hfind)
      exact List.fst_mem_of_mem_zipIdx hp
    have hdue := hrows.2.2.1 t (hid ▸ hmem)
    rw [ht] at hdue
    simp [due, hne] at hdue
  · rfl

theorem claimTimer_status (claimed : List (PyStr × PyStr)) (timer : Timer) :
    claimTimer claimed t timer = timer ∨ (claimTimer claimed t timer).status = .running := by
  unfold claimTimer
  cases claimed.find? (·.1 = t) with
  | none => exact Or.inl rfl
  | some c => exact Or.inr rfl

theorem cancelTimer_cases (chat event user : PyStr) (timer : Timer) :
    cancelTimer chat event user timer = timer ∨
      timer.status = .pending ∧ (cancelTimer chat event user timer).status = .cancelled := by
  unfold cancelTimer
  split_ifs with h
  · exact Or.inr ⟨h.2.2.2.1, rfl⟩
  · exact Or.inl rfl

/-- A command that does not act leaves every row alone that is not pending. -/
theorem exec_row {c : Command} {r : Reply c} (hc : ¬ Acts c) (h : exec uuid c s = some (r, s'))
    {timer : Timer} (ht : s.timers t = some timer) (hne : timer.status ≠ .pending) :
    s'.timers t = some timer := by
  cases c with
  | claim worker now limit rows =>
    obtain ⟨hrows, rfl⟩ := exec_claim h
    show (s.timers t).map _ = _
    rw [ht, Option.map_some, claimTimer_of_ne hrows ht hne]
  | cancel chat event user =>
    cases h
    show (s.timers t).map _ = _
    rw [ht, Option.map_some]
    rcases cancelTimer_cases chat event user timer with hsame | ⟨hpending, -⟩
    · rw [hsame]
    · exact absurd hpending hne
  | insert id new =>
    obtain ⟨hid, rfl⟩ := exec_insert h
    have hne' : t ≠ id := fun he ↦ by simp [he ▸ ht] at hid
    exact (Function.update_of_ne hne' _ _).trans ht
  | createTask worker =>
    obtain ⟨c, -, rfl⟩ := exec_createTask h
    exact ht
  | takeTask => exact absurd trivial hc
  | setState => exact absurd trivial hc
  | deliver => exact absurd trivial hc
  | _ =>
    cases h
    exact ht

end Rows

end FourCE.Timers

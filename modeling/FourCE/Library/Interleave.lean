import Mathlib.Data.List.Induction
import Mathlib.Tactic.Common

/-!
# Programs that share a store

A program issues commands one at a time; each is carried out at once on a store that other programs
use too, and what it replies decides how the program goes on.  A pool runs any number of them in any
order: a schedule starts operations and lets threads take a command each, and a command may have to
wait.  What every schedule keeps is proved from what one command keeps.
-/

namespace FourCE.Library

/-- A program as the commands it issues, each with what the program does on the reply. -/
inductive Proc (C : Type) (R : C → Type) (A : Type)
  | ret (a : A)
  | cmd (c : C) (k : R c → Proc C R A)

namespace Proc

variable {C : Type} {R : C → Type} {A B : Type}

/-- One command, and its reply as the result. -/
def send (c : C) : Proc C R (R c) := .cmd c .ret

def bind : Proc C R A → (A → Proc C R B) → Proc C R B
  | .ret a, f => f a
  | .cmd c k, f => .cmd c fun r ↦ (k r).bind f

instance : Monad (Proc C R) where
  pure := .ret
  bind := bind

@[simp]
theorem pure_eq (a : A) : (pure a : Proc C R A) = .ret a := rfl

@[simp]
theorem ret_bind (a : A) (f : A → Proc C R B) : (Proc.ret a >>= f) = f a := rfl

@[simp]
theorem cmd_bind (c : C) (k : R c → Proc C R A) (f : A → Proc C R B) :
    (Proc.cmd c k >>= f) = .cmd c fun r ↦ k r >>= f := rfl

@[simp]
theorem send_bind (c : C) (f : R c → Proc C R B) : (send c >>= f) = .cmd c f := rfl

/-- The command a program waits to issue. -/
def head? : Proc C R A → Option C
  | .ret _ => none
  | .cmd c _ => some c

@[simp]
theorem head?_ret (a : A) : (.ret a : Proc C R A).head? = none := rfl

@[simp]
theorem head?_cmd (c : C) (k : R c → Proc C R A) : (Proc.cmd c k).head? = some c := rfl

/-! ## What may still come -/

/-- What a program may have become after some of its commands. -/
inductive Rest (p : Proc C R A) : Proc C R A → Prop
  | start : Rest p p
  | next {c : C} {k : R c → Proc C R A} (r : R c) : Rest p (.cmd c k) → Rest p (k r)

theorem Rest.trans {p q s : Proc C R A} (h : p.Rest q) (h' : q.Rest s) : p.Rest s := by
  induction h' with
  | start => exact h
  | next r _ ih => exact ih.next r

@[simp]
theorem rest_ret_iff (a : A) (q : Proc C R A) : (Proc.ret a : Proc C R A).Rest q ↔ q = .ret a := by
  constructor
  · intro h
    induction h with
    | start => rfl
    | next r _ ih => cases ih
  · rintro rfl
    exact .start

/-- Either nothing was done yet, or the program is somewhere past its first command. -/
@[simp]
theorem rest_cmd_iff (c : C) (k : R c → Proc C R A) (q : Proc C R A) :
    (Proc.cmd c k).Rest q ↔ q = .cmd c k ∨ ∃ r, (k r).Rest q := by
  constructor
  · intro h
    induction h with
    | start => exact Or.inl rfl
    | next r _ ih =>
      rcases ih with hnow | ⟨r', hlater⟩
      · cases hnow
        exact Or.inr ⟨r, .start⟩
      · exact Or.inr ⟨r', hlater.next r⟩
  · rintro (rfl | ⟨r, hlater⟩)
    · exact .start
    · exact (Rest.next r .start).trans hlater

/-- Past a sequence of two programs: still in the first, or in the second with the first's result. -/
theorem rest_bind {p : Proc C R A} {f : A → Proc C R B} {q : Proc C R B} (h : (p >>= f).Rest q) :
    (∃ p', p.Rest p' ∧ q = (p' >>= f)) ∨ ∃ a, p.Rest (.ret a) ∧ (f a).Rest q := by
  induction h with
  | start => exact Or.inl ⟨p, .start, rfl⟩
  | @next c k r _ ih =>
    rcases ih with ⟨p', hp', hq⟩ | ⟨a, ha, hq⟩
    · cases p' with
      | ret a =>
        have hfa : f a = .cmd c k := hq.symm
        exact Or.inr ⟨a, hp', by rw [hfa]; exact .next r .start⟩
      | cmd c' k' =>
        rw [cmd_bind] at hq
        cases hq
        exact Or.inl ⟨k' r, hp'.next r, rfl⟩
    · exact Or.inr ⟨a, ha, hq.next r⟩

/-- Every command that the program can come to meets a condition, with what is to follow it. -/
def Every (P : (c : C) → (R c → Proc C R A) → Prop) (p : Proc C R A) : Prop :=
  ∀ c k, p.Rest (.cmd c k) → P c k

theorem every_ret (P : (c : C) → (R c → Proc C R A) → Prop) (a : A) :
    Every P (.ret a : Proc C R A) := by
  intro c k h
  rw [rest_ret_iff] at h
  cases h

theorem every_cmd {P : (c : C) → (R c → Proc C R A) → Prop} {c : C} {k : R c → Proc C R A}
    (h : P c k) (hk : ∀ r, Every P (k r)) : Every P (.cmd c k) := by
  intro c' k' hrest
  rcases (rest_cmd_iff c k _).mp hrest with hnow | ⟨r, hlater⟩
  · cases hnow
    exact h
  · exact hk r c' k' hlater

theorem every_bind {P : (c : C) → (R c → Proc C R A) → Prop}
    {Q : (c : C) → (R c → Proc C R B) → Prop} {p : Proc C R A} {f : A → Proc C R B}
    (hp : Every P p) (hPQ : ∀ c k, P c k → Q c fun r ↦ k r >>= f) (hf : ∀ a, Every Q (f a)) :
    Every Q (p >>= f) := by
  intro c k hrest
  rcases rest_bind hrest with ⟨p', hp', hq⟩ | ⟨a, -, hq⟩
  · cases p' with
    | ret a => exact hf a c k (hq ▸ .start)
    | cmd c' k' =>
      rw [cmd_bind] at hq
      cases hq
      exact hPQ c k' (hp c k' hp')
  · exact hf a c k hq

/-- Whatever the replies, the program issues a command with `P` before it returns. -/
inductive Will (P : C → Prop) : Proc C R A → Prop
  | now {c : C} {k : R c → Proc C R A} (h : P c) : Will P (.cmd c k)
  | later {c : C} {k : R c → Proc C R A} (h : ∀ r, Will P (k r)) : Will P (.cmd c k)

@[simp]
theorem not_will_ret (P : C → Prop) (a : A) : ¬ Will P (.ret a : Proc C R A) := fun h ↦ by cases h

theorem Will.bind {P : C → Prop} {p : Proc C R A} (h : Will P p) (f : A → Proc C R B) :
    Will P (p >>= f) := by
  induction h with
  | now h => exact .now h
  | later _ ih => exact .later ih

theorem will_cmd_iff (P : C → Prop) (c : C) (k : R c → Proc C R A) :
    Will P (.cmd c k) ↔ P c ∨ ∀ r, Will P (k r) := by
  constructor
  · intro h
    cases h with
    | now h => exact Or.inl h
    | later h => exact Or.inr h
  · rintro (h | h)
    · exact .now h
    · exact .later h

end Proc

/-- A thread: the operation it was started for, and what is left of it. -/
structure Thread (C : Type) (R : C → Type) (A Op : Type) where
  op : Op
  rest : Proc C R A

/-- A store, the threads that use it, and the commands carried out so far with their replies. -/
structure Pool (S C : Type) (R : C → Type) (A Op : Type) where
  store : S
  threads : List (Thread C R A Op)
  log : List (ℕ × (c : C) × R c)

/-- What a schedule says next: an operation starts, or a thread takes its next command. -/
inductive Turn (Op : Type)
  | start (op : Op)
  | resume (i : ℕ)

namespace Pool

variable {S C A Op : Type} {R : C → Type}

def start (p : Pool S C R A Op) (op : Op) (rest : Proc C R A) : Pool S C R A Op :=
  { p with threads := p.threads ++ [⟨op, rest⟩] }

/-- Thread `i` carries out `c` with reply `r`, which leaves the store `s` and of it `rest`. -/
def commit (p : Pool S C R A Op) (i : ℕ) (op : Op) (c : C) (r : R c) (s : S) (rest : Proc C R A) :
    Pool S C R A Op :=
  ⟨s, p.threads.set i ⟨op, rest⟩, p.log ++ [(i, ⟨c, r⟩)]⟩

section Run

variable (exec : (c : C) → S → Option (R c × S)) (prog : Op → Proc C R A)

/-- One turn; a thread that has returned, or whose command must wait, does nothing with it. -/
def step (p : Pool S C R A Op) : Turn Op → Pool S C R A Op
  | .start op => p.start op (prog op)
  | .resume i =>
    match p.threads[i]? with
    | some ⟨op, .cmd c k⟩ =>
      match exec c p.store with
      | some (r, s) => p.commit i op c r s (k r)
      | none => p
    | _ => p

def run (p : Pool S C R A Op) (turns : List (Turn Op)) : Pool S C R A Op :=
  turns.foldl (step exec prog) p

/-- A store nobody uses yet. -/
def idle (s : S) : Pool S C R A Op := ⟨s, [], []⟩

/-- No operation is in progress. -/
def Quiet (p : Pool S C R A Op) : Prop := ∀ t ∈ p.threads, ∃ a, t.rest = .ret a

variable {exec prog}

@[simp]
theorem run_nil (p : Pool S C R A Op) : run exec prog p [] = p := rfl

@[simp]
theorem run_concat (p : Pool S C R A Op) (turns : List (Turn Op)) (turn : Turn Op) :
    run exec prog p (turns ++ [turn]) = step exec prog (run exec prog p turns) turn :=
  List.foldl_append

theorem run_append (p : Pool S C R A Op) (turns more : List (Turn Op)) :
    run exec prog p (turns ++ more) = run exec prog (run exec prog p turns) more :=
  List.foldl_append

variable (exec prog) in
/-- All that one turn can do. -/
theorem step_cases (p : Pool S C R A Op) (turn : Turn Op) :
    (∃ op, turn = .start op ∧ step exec prog p turn = p.start op (prog op)) ∨
      (∃ i op c k r s, turn = .resume i ∧ p.threads[i]? = some ⟨op, .cmd c k⟩ ∧
        exec c p.store = some (r, s) ∧ step exec prog p turn = p.commit i op c r s (k r)) ∨
      step exec prog p turn = p := by
  cases turn with
  | start op => exact Or.inl ⟨op, rfl, rfl⟩
  | resume i =>
    right
    unfold step
    rcases hi : p.threads[i]? with _ | ⟨op, rest⟩
    · exact Or.inr (by simp only [hi])
    · cases rest with
      | ret a => exact Or.inr (by simp only [hi])
      | cmd c k =>
        rcases hc : exec c p.store with _ | ⟨r, s⟩
        · exact Or.inr (by simp only [hi, hc])
        · exact Or.inl ⟨i, op, c, k, r, s, rfl, hi, hc, by simp only [hi, hc]⟩

theorem step_resume {p : Pool S C R A Op} {i : ℕ} {op : Op} {c : C} {k : R c → Proc C R A} {r : R c}
    {s : S} (hi : p.threads[i]? = some ⟨op, .cmd c k⟩) (hc : exec c p.store = some (r, s)) :
    step exec prog p (.resume i) = p.commit i op c r s (k r) := by
  unfold step
  simp only [hi, hc]

/-! ## What every schedule keeps -/

variable (exec prog) in
/-- Every turn of the run meets a condition on the pool it finds. -/
def Along (K : Pool S C R A Op → Turn Op → Prop) (p : Pool S C R A Op) (turns : List (Turn Op)) :
    Prop :=
  ∀ before turn after, turns = before ++ turn :: after → K (run exec prog p before) turn

theorem Along.of_append {K : Pool S C R A Op → Turn Op → Prop} {p : Pool S C R A Op}
    {turns more : List (Turn Op)} (h : Along exec prog K p (turns ++ more)) :
    Along exec prog K p turns := fun before turn after hsplit ↦
  h before turn (after ++ more) (by rw [hsplit, List.append_assoc, List.cons_append])

theorem along_nil (K : Pool S C R A Op → Turn Op → Prop) (p : Pool S C R A Op) :
    Along exec prog K p [] := fun before turn after h ↦ by simp at h

theorem along_cons {K : Pool S C R A Op → Turn Op → Prop} {p : Pool S C R A Op} {turn : Turn Op}
    {turns : List (Turn Op)} (h : K p turn) (hturns : Along exec prog K (step exec prog p turn) turns) :
    Along exec prog K p (turn :: turns) := by
  intro before turn' after hsplit
  cases before with
  | nil =>
    obtain ⟨rfl, rfl⟩ := List.cons.inj hsplit
    exact h
  | cons first before =>
    obtain ⟨rfl, rfl⟩ := List.cons.inj hsplit
    exact hturns before turn' after rfl

/-- What holds at the start and is kept by each start and each command holds after every run whose
turns meet the condition. -/
theorem run_induction {I : Pool S C R A Op → Prop} {K : Pool S C R A Op → Turn Op → Prop}
    {p : Pool S C R A Op} (hp : I p) (hstart : ∀ q op, I q → I (q.start op (prog op)))
    (hcommit : ∀ q i op c k r s, q.threads[i]? = some ⟨op, .cmd c k⟩ →
      exec c q.store = some (r, s) → K q (.resume i) → I q → I (q.commit i op c r s (k r)))
    (turns : List (Turn Op)) (h : Along exec prog K p turns) : I (run exec prog p turns) := by
  induction turns using List.reverseRecOn with
  | nil => exact hp
  | append_singleton turns turn ih =>
    have hbefore := ih h.of_append
    rw [run_concat]
    rcases step_cases exec prog (run exec prog p turns) turn with
      ⟨op, -, hstep⟩ | ⟨i, op, c, k, r, s, rfl, hi, hc, hstep⟩ | hstep
    · rw [hstep]
      exact hstart _ op hbefore
    · rw [hstep]
      exact hcommit _ i op c k r s hi hc (h turns _ [] rfl) hbefore
    · rw [hstep]
      exact hbefore

/-- The same for runs that meet no condition. -/
theorem run_invariant {I : Pool S C R A Op → Prop} {p : Pool S C R A Op} (hp : I p)
    (hstart : ∀ q op, I q → I (q.start op (prog op)))
    (hcommit : ∀ q i op c k r s, q.threads[i]? = some ⟨op, .cmd c k⟩ →
      exec c q.store = some (r, s) → I q → I (q.commit i op c r s (k r)))
    (turns : List (Turn Op)) : I (run exec prog p turns) :=
  run_induction (K := fun _ _ ↦ True) hp hstart
    (fun q i op c k r s hi hc _ hq ↦ hcommit q i op c k r s hi hc hq) turns
    fun _ _ _ _ ↦ trivial

end Run

/-! ## The threads after a turn -/

theorem getElem?_start {p : Pool S C R A Op} {op : Op} {rest : Proc C R A} {j : ℕ}
    {t : Thread C R A Op} (h : (p.start op rest).threads[j]? = some t) :
    p.threads[j]? = some t ∨ j = p.threads.length ∧ t = ⟨op, rest⟩ := by
  unfold start at h
  rw [List.getElem?_append] at h
  split_ifs at h with hj
  · exact Or.inl h
  · rw [List.getElem?_singleton] at h
    split_ifs at h with hlast
    exact Or.inr ⟨by omega, by simpa using h.symm⟩

theorem getElem?_commit {p : Pool S C R A Op} {i : ℕ} {op : Op} {c : C} {r : R c} {s : S}
    {rest : Proc C R A} {j : ℕ} {t : Thread C R A Op}
    (h : (p.commit i op c r s rest).threads[j]? = some t) :
    j = i ∧ t = ⟨op, rest⟩ ∨ j ≠ i ∧ p.threads[j]? = some t := by
  unfold commit at h
  rw [List.getElem?_set] at h
  split_ifs at h with hi hj
  · exact Or.inl ⟨hi.symm, by simpa using h.symm⟩
  · exact Or.inr ⟨fun he ↦ hi he.symm, h⟩

theorem getElem?_start_of {p : Pool S C R A Op} {j : ℕ} {t : Thread C R A Op}
    (h : p.threads[j]? = some t) (op : Op) (rest : Proc C R A) :
    (p.start op rest).threads[j]? = some t := by
  unfold start
  rw [List.getElem?_append_left (List.getElem?_eq_some_iff.mp h).choose, h]

theorem getElem?_commit_self {p : Pool S C R A Op} {i : ℕ} {t : Thread C R A Op}
    (h : p.threads[i]? = some t) (op : Op) (c : C) (r : R c) (s : S) (rest : Proc C R A) :
    (p.commit i op c r s rest).threads[i]? = some ⟨op, rest⟩ := by
  unfold commit
  rw [List.getElem?_set_self (List.getElem?_eq_some_iff.mp h).choose]

theorem getElem?_commit_of_ne (p : Pool S C R A Op) {i j : ℕ} (h : j ≠ i) (op : Op) (c : C) (r : R c)
    (s : S) (rest : Proc C R A) : (p.commit i op c r s rest).threads[j]? = p.threads[j]? := by
  unfold commit
  rw [List.getElem?_set_ne h.symm]

/-- The induction for a store nobody used before: each command is one its program can come to. -/
theorem idle_induction {exec : (c : C) → S → Option (R c × S)} {prog : Op → Proc C R A}
    {I : Pool S C R A Op → Prop} {K : Pool S C R A Op → Turn Op → Prop} {s : S} (hp : I (idle s))
    (hstart : ∀ q op, I q → I (q.start op (prog op)))
    (hcommit : ∀ q i op c k r s, q.threads[i]? = some ⟨op, .cmd c k⟩ → (prog op).Rest (.cmd c k) →
      exec c q.store = some (r, s) → K q (.resume i) → I q → I (q.commit i op c r s (k r)))
    (turns : List (Turn Op)) (h : Along exec prog K (idle s) turns) :
    I (run exec prog (idle s) turns) := by
  refine (run_induction (K := K) (I := fun q ↦ I q ∧ ∀ (j : ℕ) (u : Thread C R A Op),
    q.threads[j]? = some u → (prog u.op).Rest u.rest) ?_ ?_ ?_ turns h).1
  · exact ⟨hp, fun j u hu ↦ by simp [idle] at hu⟩
  · rintro q op ⟨hI, hrest⟩
    refine ⟨hstart q op hI, fun j u hu ↦ ?_⟩
    rcases getElem?_start hu with hold | ⟨-, rfl⟩
    · exact hrest j u hold
    · exact .start
  · rintro q i op c k r s' hi hc hK ⟨hI, hrest⟩
    refine ⟨hcommit q i op c k r s' hi (hrest i _ hi) hc hK hI, fun j u hu ↦ ?_⟩
    rcases getElem?_commit hu with ⟨-, rfl⟩ | ⟨-, hold⟩
    · exact (hrest i _ hi).next r
    · exact hrest j u hold

/-! ## An operation on its own -/

/-- At most `n` commands of a program with nothing in between, and what is left of it. -/
def alone (exec : (c : C) → S → Option (R c × S)) : ℕ → Proc C R A → S → Proc C R A × S
  | 0, p, s => (p, s)
  | _ + 1, .ret a, s => (.ret a, s)
  | n + 1, .cmd c k, s =>
    match exec c s with
    | some (r, s') => alone exec n (k r) s'
    | none => (.cmd c k, s)

theorem alone_ret (exec : (c : C) → S → Option (R c × S)) (n : ℕ) (a : A) (s : S) :
    alone exec n (.ret a) s = (.ret a, s) := by
  cases n <;> rfl

theorem alone_cmd {exec : (c : C) → S → Option (R c × S)} {c : C} {s s' : S} {r : R c}
    (h : exec c s = some (r, s')) (n : ℕ) (k : R c → Proc C R A) :
    alone exec (n + 1) (.cmd c k) s = alone exec n (k r) s' := by
  rw [alone, h]

theorem run_waiting {exec : (c : C) → S → Option (R c × S)} {prog : Op → Proc C R A}
    {p : Pool S C R A Op} {turn : Turn Op} (h : step exec prog p turn = p) (n : ℕ) :
    run exec prog p (List.replicate n turn) = p := by
  induction n with
  | zero => rfl
  | succ n ih =>
    rw [List.replicate_succ, run, List.foldl_cons, h]
    exact ih

theorem set_self {p : Pool S C R A Op} {i : ℕ} {t : Thread C R A Op} (h : p.threads[i]? = some t) :
    p.threads.set i t = p.threads := by
  obtain ⟨hlt, hget⟩ := List.getElem?_eq_some_iff.mp h
  rw [← hget, List.set_getElem_self]

/-- A thread that takes all the turns does what its program does alone. -/
theorem run_alone {exec : (c : C) → S → Option (R c × S)} {prog : Op → Proc C R A} (n : ℕ)
    {p : Pool S C R A Op} {i : ℕ} {op : Op} {rest : Proc C R A}
    (hi : p.threads[i]? = some ⟨op, rest⟩) :
    (run exec prog p (List.replicate n (.resume i))).store = (alone exec n rest p.store).2 ∧
      (run exec prog p (List.replicate n (.resume i))).threads =
        p.threads.set i ⟨op, (alone exec n rest p.store).1⟩ := by
  induction n generalizing p rest with
  | zero => exact ⟨rfl, (set_self hi).symm⟩
  | succ n ih =>
    cases rest with
    | ret a =>
      have hstep : step exec prog p (.resume i) = p := by simp only [step, hi]
      rw [run_waiting hstep, alone_ret]
      exact ⟨rfl, (set_self hi).symm⟩
    | cmd c k =>
      rcases hc : exec c p.store with _ | ⟨r, s⟩
      · have hstep : step exec prog p (.resume i) = p := by simp only [step, hi, hc]
        rw [run_waiting hstep, alone, hc]
        exact ⟨rfl, (set_self hi).symm⟩
      · have hrest := ih (getElem?_commit_self hi op c r s (k r))
        rw [List.replicate_succ, run, List.foldl_cons, step_resume hi hc, alone_cmd hc]
        refine ⟨hrest.1, hrest.2.trans ?_⟩
        unfold commit
        rw [List.set_set]

/-- An operation that starts and takes all the turns from then on. -/
theorem run_start_alone (exec : (c : C) → S → Option (R c × S)) (prog : Op → Proc C R A) (n : ℕ)
    (p : Pool S C R A Op) (op : Op) :
    (run exec prog p (.start op :: List.replicate n (.resume p.threads.length))).store =
        (alone exec n (prog op) p.store).2 ∧
      (run exec prog p (.start op :: List.replicate n (.resume p.threads.length))).threads =
        p.threads ++ [⟨op, (alone exec n (prog op) p.store).1⟩] := by
  have hlast : (p.start op (prog op)).threads[p.threads.length]? = some ⟨op, prog op⟩ := by
    simp [start]
  have hrun := @run_alone S C A Op R exec prog n _ _ _ _ hlast
  refine ⟨hrun.1, hrun.2.trans ?_⟩
  simp [start]

/-! ## Assertions of each thread -/

/-- A condition on the store and the log that all keep, and one for each thread on how far it has
come, which its own commands carry on and the commands of the others leave alone.  Commands are
taken under a condition of their own. -/
structure Keeps (exec : (c : C) → S → Option (R c × S)) (prog : Op → Proc C R A)
    (K : ℕ → C → S → List (ℕ × (c : C) × R c) → Prop) (G : S → List (ℕ × (c : C) × R c) → Prop)
    (L : ℕ → Op → Proc C R A → S → List (ℕ × (c : C) × R c) → Prop) : Prop where
  begin : ∀ i op s l, G s l → L i op (prog op) s l
  own : ∀ i op c k r s s' l, (prog op).Rest (.cmd c k) → exec c s = some (r, s') → K i c s l →
    G s l → L i op (.cmd c k) s l → G s' (l ++ [(i, ⟨c, r⟩)]) ∧ L i op (k r) s' (l ++ [(i, ⟨c, r⟩)])
  other : ∀ i op c k r s s' l j op' rest, j ≠ i → exec c s = some (r, s') → K i c s l → G s l →
    L i op (.cmd c k) s l → L j op' rest s l → L j op' rest s' (l ++ [(i, ⟨c, r⟩)])

/-- The condition on commands, as one on the turns that take them. -/
def Taking (K : ℕ → C → S → List (ℕ × (c : C) × R c) → Prop) (p : Pool S C R A Op) :
    Turn Op → Prop
  | .start _ => True
  | .resume i => ∀ op c k, p.threads[i]? = some ⟨op, .cmd c k⟩ → K i c p.store p.log

theorem Keeps.run {exec : (c : C) → S → Option (R c × S)} {prog : Op → Proc C R A}
    {K : ℕ → C → S → List (ℕ × (c : C) × R c) → Prop} {G : S → List (ℕ × (c : C) × R c) → Prop}
    {L : ℕ → Op → Proc C R A → S → List (ℕ × (c : C) × R c) → Prop}
    (h : Keeps exec prog K G L) {s : S} (hs : G s []) (turns : List (Turn Op))
    (hturns : Along exec prog (Taking K) (idle s) turns) :
    G (Pool.run exec prog (idle s) turns).store (Pool.run exec prog (idle s) turns).log ∧
      ∀ (i : ℕ) (t : Thread C R A Op), (Pool.run exec prog (idle s) turns).threads[i]? = some t →
        L i t.op t.rest (Pool.run exec prog (idle s) turns).store
          (Pool.run exec prog (idle s) turns).log := by
  refine idle_induction (K := Taking K) (I := fun q ↦ G q.store q.log ∧
    ∀ (i : ℕ) (t : Thread C R A Op), q.threads[i]? = some t → L i t.op t.rest q.store q.log)
    ?_ ?_ ?_ turns hturns
  · exact ⟨hs, fun i t hi ↦ by simp [idle] at hi⟩
  · rintro q op ⟨hG, hL⟩
    refine ⟨hG, fun j t hj ↦ ?_⟩
    rcases getElem?_start hj with hold | ⟨-, rfl⟩
    · exact hL j t hold
    · exact h.begin j op _ _ hG
  · rintro q i op c k r s' hi hrest hc hK ⟨hG, hL⟩
    have hown := h.own i op c k r _ s' _ hrest hc (hK op c k hi) hG (hL i _ hi)
    refine ⟨hown.1, fun j t hj ↦ ?_⟩
    rcases getElem?_commit hj with ⟨rfl, rfl⟩ | ⟨hne, hold⟩
    · exact hown.2
    · exact h.other i op c k r _ s' _ j t.op t.rest hne hc (hK op c k hi) hG (hL i _ hi)
        (hL j t hold)

end Pool

end FourCE.Library

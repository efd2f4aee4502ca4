import FourCE.Library.Compaction
import FourCE.Socket.Ydoc
import Mathlib.Algebra.GroupWithZero.Nat

/-!
# No edit is lost between a read and a replacement without a push

The list of a document holds the updates that were pushed, in the order they were pushed.  A
compaction keeps that as long as no push falls between its read of the list and its replacement; the
document is not cleared as long as it has a user.
-/

namespace FourCE.Socket.Ydoc

open FourCE.Library FourCE.Python

variable {U : Type}

/-! ## Keys -/

namespace Manager

variable (m : Manager)

theorem usersKey_ne_updatesKey (d e : PyStr) : m.usersKey d ≠ m.updatesKey e := by
  intro h
  have hend := congrArg (fun l : PyStr ↦ l.reverse.take 2) h
  unfold usersKey updatesKey at hend
  simp only [List.reverse_append] at hend
  rw [List.take_append_of_le_length (by decide), List.take_append_of_le_length (by decide)] at hend
  exact absurd hend (by decide)

theorem sessionKey_ne_updatesKey (user e : PyStr) : m.sessionKey user ≠ m.updatesKey e := by
  intro h
  have hend := congrArg (fun l : PyStr ↦ l.reverse.take 3) h
  unfold sessionKey updatesKey at hend
  simp only [List.reverse_append] at hend
  rw [List.take_append_of_le_length (by decide), List.take_append_of_le_length (by decide)] at hend
  exact absurd hend (by decide)

theorem updatesKey_inj {d e : PyStr} : m.updatesKey d = m.updatesKey e ↔ d = e := by
  unfold updatesKey
  rw [List.append_left_inj, List.append_right_inj]

end Manager

/-! ## What the programs do, one command after the other -/

/-- The updates of a document as they are stored. -/
def entries (m : Manager) (doc : PyStr) (s : Store U) : List U :=
  if m.redis then s.lists (m.updatesKey doc) else (s.updates doc).getD []

/-- The update a command puts into the document. -/
def pushOf (m : Manager) (doc : PyStr) : Command U → Option U
  | .rpush key update => if m.redis ∧ key = m.updatesKey doc then some update else none
  | .appendMemory d update => if !m.redis ∧ d = doc then some update else none
  | _ => none

/-- A command that neither replaces a list nor clears a document. -/
def Harmless (m : Manager) : Option (Command U) → Prop
  | some (.replace _ _) => False
  | some (.delete key) => ∀ doc, key ≠ m.updatesKey doc
  | some (.clearMemory _) => False
  | _ => True

/-- A list is replaced right after it was read, by what was read of it compacted; a document is
cleared right after it was found without users. -/
structure Careful (m : Manager) (squash : List U → U) (c : Command U)
    (k : Reply c → Client U (Result U)) : Prop where
  replaces : ∀ r key us, (k r).head? = some (.replace key us) →
    ∃ all : List U, (⟨c, r⟩ : (c : Command U) × Reply c) = ⟨.lrange key, all⟩ ∧ us = compacted squash all
  deletes : ∀ r doc, (k r).head? = some (.delete (m.updatesKey doc)) →
    (⟨c, r⟩ : (c : Command U) × Reply c) = ⟨.smembers (m.usersKey doc), (∅ : Finset PyStr)⟩
  clears : ∀ r doc, (k r).head? = some (.clearMemory doc) →
    (⟨c, r⟩ : (c : Command U) × Reply c) = ⟨.usersMemory doc, (∅ : Finset PyStr)⟩

theorem careful_of_harmless {m : Manager} {squash : List U → U} {c : Command U}
    {k : Reply c → Client U (Result U)} (h : ∀ r, Harmless m (k r).head?) : Careful m squash c k where
  replaces r key us hhead := by
    have hr := h r
    rw [hhead] at hr
    exact hr.elim
  deletes r doc hhead := by
    have hr := h r
    rw [hhead] at hr
    exact absurd rfl (hr doc)
  clears r doc hhead := by
    have hr := h r
    rw [hhead] at hr
    exact hr.elim

/-- The update of the document that an operation is there to put in. -/
def Manager.Op.update? (doc : PyStr) : Manager.Op U → Option U
  | .append document_id update => if stored document_id = doc then some update else none
  | _ => none

/-- The rest of a program puts nothing into the document. -/
def Settled (m : Manager) (squash : List U → U) (doc : PyStr) : Client U (Result U) → Prop :=
  Proc.Every fun c k ↦ Careful m squash c k ∧ pushOf m doc c = none

/-- A program begins with the push it is there for, if any, and puts in nothing more. -/
def Begins (m : Manager) (squash : List U → U) (doc : PyStr) (p : Client U (Result U))
    (update? : Option U) : Prop :=
  ∃ c k, p = .cmd c k ∧ Harmless m (some c) ∧ pushOf m doc c = update? ∧ Careful m squash c k ∧
    ∀ r, Settled m squash doc (k r)

section

variable {m : Manager} {squash : List U → U} {doc : PyStr}

theorem settled_ret (a : Result U) : Settled m squash doc (.ret a) := Proc.every_ret _ a

theorem settled_cmd {c : Command U} {k : Reply c → Client U (Result U)}
    (hc : Careful m squash c k) (hpush : pushOf m doc c = none)
    (hk : ∀ r, Settled m squash doc (k r)) : Settled m squash doc (.cmd c k) :=
  Proc.every_cmd ⟨hc, hpush⟩ hk

theorem harmless_delete_users (d : PyStr) :
    Harmless m (some (.delete (m.usersKey d) : Command U)) := m.usersKey_ne_updatesKey d

/-- A command after which nothing is replaced or cleared at once. -/
theorem settled_harmless {c : Command U} {k : Reply c → Client U (Result U)}
    (hpush : pushOf m doc c = none) (hk : ∀ r, Harmless m (k r).head? ∧ Settled m squash doc (k r)) :
    Settled m squash doc (.cmd c k) :=
  settled_cmd (careful_of_harmless fun r ↦ (hk r).1) hpush fun r ↦ (hk r).2

theorem Settled.after {c : Command U} {k : Reply c → Client U (Result U)}
    (h : Settled m squash doc (.cmd c k)) (r : Reply c) : Settled m squash doc (k r) :=
  fun c' k' hrest ↦ h c' k' ((Proc.Rest.next r .start).trans hrest)

theorem compactUpdatesRedis_settled (d : PyStr) :
    Settled m squash doc (m.compactUpdatesRedis squash d) := by
  rw [m.compactUpdatesRedis_eq]
  apply settled_cmd
  · exact {
      replaces := fun (all : List U) key us hhead ↦ by
        split_ifs at hhead with hlen
        · cases hhead
        · obtain ⟨rfl, rfl⟩ := Command.replace.inj (Option.some.inj hhead)
          exact ⟨all, rfl, rfl⟩
      deletes := fun (all : List U) d hhead ↦ by
        split_ifs at hhead with hlen
        · cases hhead
        · cases Option.some.inj hhead
      clears := fun (all : List U) d hhead ↦ by
        split_ifs at hhead with hlen
        · cases hhead
        · cases Option.some.inj hhead }
  · rfl
  · intro all
    split_ifs
    · exact settled_ret _
    · exact settled_harmless rfl fun _ ↦ ⟨trivial, settled_ret _⟩

variable (m squash doc) in
theorem clearDocument_settled (d : PyStr) :
    Settled m squash doc (m.clearDocument d : Client U (Result U)) := by
  rw [m.clearDocument_eq]
  split_ifs
  · exact settled_harmless rfl fun _ ↦ ⟨harmless_delete_users _,
      settled_harmless rfl fun _ ↦ ⟨trivial, settled_ret _⟩⟩
  · exact settled_harmless rfl fun _ ↦ ⟨trivial, settled_ret _⟩

theorem careful_smembers {d : PyStr} {k' : Reply (.delete (m.updatesKey d)) → Client U (Result U)}
    {p : Client U (Result U)} (hp : Harmless m p.head?) :
    Careful m squash (.smembers (m.usersKey d)) fun (users : Finset PyStr) ↦
      if users.card = 0 then .cmd (.delete (m.updatesKey d)) k' else p where
  replaces := fun (users : Finset PyStr) key us hhead ↦ by
    split_ifs at hhead with hnone
    · cases Option.some.inj hhead
    · rw [hhead] at hp
      exact hp.elim
  deletes := fun (users : Finset PyStr) e hhead ↦ by
    split_ifs at hhead with hnone
    · obtain rfl := m.updatesKey_inj.mp (Command.delete.inj (Option.some.inj hhead))
      rw [Finset.card_eq_zero.mp hnone]
    · rw [hhead] at hp
      exact absurd rfl (hp e)
  clears := fun (users : Finset PyStr) e hhead ↦ by
    split_ifs at hhead with hnone
    · cases Option.some.inj hhead
    · rw [hhead] at hp
      exact hp.elim

theorem careful_usersMemory {d : PyStr} {k' : Reply (.clearMemory d) → Client U (Result U)}
    {p : Client U (Result U)} (hp : Harmless m p.head?) :
    Careful m squash (.usersMemory d) fun (users : Finset PyStr) ↦
      if users.card = 0 then .cmd (.clearMemory d) k' else p where
  replaces := fun (users : Finset PyStr) key us hhead ↦ by
    split_ifs at hhead with hnone
    · cases Option.some.inj hhead
    · rw [hhead] at hp
      exact hp.elim
  deletes := fun (users : Finset PyStr) e hhead ↦ by
    split_ifs at hhead with hnone
    · cases Option.some.inj hhead
    · rw [hhead] at hp
      exact absurd rfl (hp e)
  clears := fun (users : Finset PyStr) e hhead ↦ by
    split_ifs at hhead with hnone
    · obtain rfl := Command.clearMemory.inj (Option.some.inj hhead)
      rw [Finset.card_eq_zero.mp hnone]
    · rw [hhead] at hp
      exact hp.elim

variable (m squash doc) in
theorem removeFromEach_settled (user_id : PyStr) (ids : List PyStr) :
    Harmless m (m.removeFromEach user_id ids : Client U (Result U)).head? ∧
      Settled m squash doc (m.removeFromEach user_id ids : Client U (Result U)) := by
  induction ids with
  | nil =>
    rw [m.removeFromEach_nil]
    exact ⟨m.sessionKey_ne_updatesKey user_id,
      settled_harmless rfl fun _ ↦ ⟨trivial, settled_ret _⟩⟩
  | cons d ids ih =>
    rw [m.removeFromEach_cons]
    refine ⟨trivial, settled_harmless rfl fun _ ↦ ⟨trivial, settled_cmd (careful_smembers ih.1) rfl ?_⟩⟩
    intro users
    split_ifs
    · exact settled_harmless rfl fun _ ↦ ⟨harmless_delete_users _, settled_harmless rfl fun _ ↦ ih⟩
    · exact ih.2

theorem begins_append (d : PyStr) (u : U) :
    Begins m squash doc (m.appendToUpdates squash d u) (Manager.Op.update? doc (.append d u)) := by
  rw [m.appendToUpdates_eq]
  unfold Manager.Op.update?
  split_ifs with hredis
  · refine ⟨_, _, rfl, trivial, ?_, careful_of_harmless fun _ ↦ trivial, fun _ ↦ ?_⟩
    · simp [pushOf, hredis, m.updatesKey_inj]
    · refine settled_harmless rfl fun (list_len : ℕ) ↦ ?_
      split_ifs
      · exact ⟨trivial, compactUpdatesRedis_settled _⟩
      · exact ⟨trivial, settled_ret _⟩
  · refine ⟨_, _, rfl, trivial, ?_, careful_of_harmless fun _ ↦ trivial, fun _ ↦ settled_ret _⟩
    simp [pushOf, hredis]

theorem begins_leave (d user_id : PyStr) :
    Begins m squash doc (m.leave d user_id : Client U (Result U)) none := by
  have hclear := clearDocument_settled m squash doc d
  rw [m.leave_eq]
  rw [m.clearDocument_eq] at hclear ⊢
  split_ifs at hclear ⊢ with hredis
  · refine ⟨_, _, rfl, trivial, rfl, careful_of_harmless fun _ ↦ trivial, fun _ ↦ ?_⟩
    refine settled_harmless rfl fun _ ↦ ⟨trivial, settled_harmless rfl fun (found : Bool) ↦ ?_⟩
    split_ifs
    · refine ⟨trivial, settled_cmd (careful_smembers trivial) rfl fun (users : Finset PyStr) ↦ ?_⟩
      split_ifs
      · exact hclear
      · exact settled_ret _
    · exact ⟨trivial, settled_ret _⟩
  · refine ⟨_, _, rfl, trivial, rfl, careful_of_harmless fun _ ↦ trivial, fun _ ↦ ?_⟩
    refine settled_harmless rfl fun (found : Bool) ↦ ?_
    split_ifs
    · refine ⟨trivial, settled_cmd (careful_usersMemory trivial) rfl fun (users : Finset PyStr) ↦ ?_⟩
      split_ifs
      · exact hclear
      · exact settled_ret _
    · exact ⟨trivial, settled_ret _⟩

variable (m squash doc) in
/-- Every operation begins with the push it is there for. -/
theorem program_begins (op : Manager.Op U) :
    Begins m squash doc (m.program squash op) (op.update? doc) := by
  cases op with
  | append d u => exact begins_append d u
  | getUpdates d =>
    show Begins m squash doc (m.getUpdates d) none
    rw [m.getUpdates_eq]
    split_ifs
    · exact ⟨_, _, rfl, trivial, rfl, careful_of_harmless fun _ ↦ trivial, fun _ ↦ settled_ret _⟩
    · exact ⟨_, _, rfl, trivial, rfl, careful_of_harmless fun _ ↦ trivial, fun _ ↦ settled_ret _⟩
  | join d user_id =>
    show Begins m squash doc (m.addUser d user_id) none
    rw [m.addUser_eq]
    split_ifs
    · exact ⟨_, _, rfl, trivial, rfl, careful_of_harmless fun _ ↦ trivial,
        fun _ ↦ settled_harmless rfl fun _ ↦ ⟨trivial, settled_ret _⟩⟩
    · exact ⟨_, _, rfl, trivial, rfl, careful_of_harmless fun _ ↦ trivial, fun _ ↦ settled_ret _⟩
  | leave d user_id => exact begins_leave d user_id
  | disconnect order user_id =>
    show Begins m squash doc (m.removeUserFromAllDocuments order user_id) none
    rw [m.removeUserFromAllDocuments_eq]
    split_ifs
    · exact ⟨_, _, rfl, trivial, rfl,
        careful_of_harmless fun ids ↦ (removeFromEach_settled m squash doc user_id _).1,
        fun ids ↦ (removeFromEach_settled m squash doc user_id _).2⟩
    · exact ⟨_, _, rfl, trivial, rfl, careful_of_harmless fun _ ↦ trivial, fun _ ↦ settled_ret _⟩

theorem careful_of_rest {op : Manager.Op U} {c : Command U} {k : Reply c → Client U (Result U)}
    (h : (m.program squash op).Rest (.cmd c k)) : Careful m squash c k := by
  obtain ⟨c', k', hprog, -, -, hcareful, hsettled⟩ :=
    program_begins m squash [] op
  rw [hprog] at h
  rcases (Proc.rest_cmd_iff c' k' _).mp h with hnow | ⟨r, hlater⟩
  · cases hnow
    exact hcareful
  · exact (hsettled r c k hlater).1

end

/-! ## What a run keeps -/

abbrev Log (U : Type) := List (ℕ × (c : Command U) × Reply c)

/-- The updates put into the document so far, in order, each with the thread that put it there. -/
def pushes (m : Manager) (doc : PyStr) (l : Log U) : List (ℕ × U) :=
  l.filterMap fun e ↦ (pushOf m doc e.2.1).map fun u ↦ (e.1, u)

/-- No push into the document falls between a compaction's read of it and its replacement. -/
def Undisturbed (m : Manager) (doc : PyStr) (i : ℕ) (c : Command U) (l : Log U) : Prop :=
  ∀ us, c = .replace (m.updatesKey doc) us → ∀ (a : Log U) (all : List U) (b : Log U),
    l = a ++ (i, ⟨.lrange (m.updatesKey doc), all⟩) :: b → ∀ e ∈ b, pushOf m doc e.2.1 = none

/-- Whoever looks finds a user of the document, and no session that goes is its last. -/
def KeepsUser (m : Manager) (doc : PyStr) (s : Store U) : Command U → Prop
  | .smembers key => key = m.usersKey doc → s.sets key ≠ ∅
  | .usersMemory d => d = doc → (s.users doc).getD ∅ ≠ ∅
  | .removeAllMemory user_id => leavesEmpty (s.users doc) user_id = false
  | _ => True

def Kept (m : Manager) (doc : PyStr) (i : ℕ) (c : Command U) (s : Store U) (l : Log U) : Prop :=
  KeepsUser m doc s c ∧ Undisturbed m doc i c l

/-- What a thread relies on: what it read of the list, if it is about to replace it, still is what the
document holds if nothing was pushed since; and it is not about to clear the document. -/
structure Relies (m : Manager) (squash : List U → U) (doc : PyStr) (base : List U) (i : ℕ)
    (rest : Client U (Result U)) (l : Log U) : Prop where
  reading : m.redis = true → ∀ us, rest.head? = some (.replace (m.updatesKey doc) us) →
    ∃ (a : Log U) (all : List U) (b : Log U),
      l = a ++ (i, ⟨.lrange (m.updatesKey doc), all⟩) :: b ∧ us = compacted squash all ∧
        ((∀ e ∈ b, pushOf m doc e.2.1 = none) →
          Holds squash all (base ++ (pushes m doc l).map Prod.snd))
  keeps : rest.head? ≠ some (.delete (m.updatesKey doc)) ∧ rest.head? ≠ some (.clearMemory doc)

section

variable {m : Manager} {squash : List U → U} {doc : PyStr} {base : List U}

theorem pushes_append (l : Log U) (i : ℕ) (c : Command U) (r : Reply c) :
    pushes m doc (l ++ [(i, ⟨c, r⟩)]) =
      pushes m doc l ++ ((pushOf m doc c).map fun u ↦ (i, u)).toList := by
  unfold pushes
  rw [List.filterMap_append]
  congr 1

theorem pushes_append_of_none (l : Log U) (i : ℕ) {c : Command U} (r : Reply c)
    (hc : pushOf m doc c = none) : pushes m doc (l ++ [(i, ⟨c, r⟩)]) = pushes m doc l := by
  rw [pushes_append, hc]
  exact List.append_nil _

theorem relies_of_harmless {i : ℕ} {rest : Client U (Result U)} {l : Log U}
    (h : Harmless m rest.head?) : Relies m squash doc base i rest l where
  reading _ us hhead := by
    rw [hhead] at h
    exact h.elim
  keeps := by
    constructor
    · intro hhead
      rw [hhead] at h
      exact h doc rfl
    · intro hhead
      rw [hhead] at h
      exact h.elim

/-- The list after `append_to_updates` in memory. -/
theorem holds_appended {us history : List U} (h : Holds squash us history) (u : U) :
    Holds squash (appended squash us u) (history ++ [u]) := by
  unfold appended compacted
  split_ifs
  · exact (h.push u).compact _
  · exact h.push u

/-- One command keeps what the list holds. -/
theorem holds_exec {i : ℕ} {c : Command U} {k : Reply c → Client U (Result U)} {r : Reply c}
    {s s' : Store U} {l : Log U} (hexec : exec squash c s = some (r, s'))
    (hK : Kept m doc i c s l)
    (hG : Holds squash (entries m doc s) (base ++ (pushes m doc l).map Prod.snd))
    (hL : Relies m squash doc base i (.cmd c k) l) :
    Holds squash (entries m doc s')
      (base ++ (pushes m doc (l ++ [(i, ⟨c, r⟩)])).map Prod.snd) := by
  have hkept (hc : pushOf m doc c = none) (hs : entries m doc s' = entries m doc s) :
      Holds squash (entries m doc s')
        (base ++ (pushes m doc (l ++ [(i, ⟨c, r⟩)])).map Prod.snd) := by
    rw [hs, pushes_append_of_none l i r hc]
    exact hG
  -- a push into the document, whichever way it is stored
  have hpush {u : U} (hc : pushOf m doc c = some u)
      (hs : Holds squash (entries m doc s')
        (base ++ (pushes m doc l).map Prod.snd ++ [u])) :
      Holds squash (entries m doc s')
        (base ++ (pushes m doc (l ++ [(i, ⟨c, r⟩)])).map Prod.snd) := by
    rw [pushes_append, hc, List.map_append, ← List.append_assoc]
    exact hs
  cases c with
  | rpush key u =>
    cases hexec
    by_cases hkey : m.redis = true ∧ key = m.updatesKey doc
    · obtain ⟨hredis, rfl⟩ := hkey
      apply hpush (u := u)
      · simp [pushOf, hredis]
      · unfold entries at hG ⊢
        simp only [hredis, if_true, Function.update_self] at hG ⊢
        exact hG.push u
    · apply hkept
      · simp only [pushOf, if_neg hkey]
      · unfold entries
        split_ifs with hredis
        · exact Function.update_of_ne (fun he ↦ hkey ⟨hredis, he.symm⟩) _ _
        · rfl
  | replace key us =>
    by_cases hkey : m.redis = true ∧ key = m.updatesKey doc
    · obtain ⟨hredis, rfl⟩ := hkey
      obtain ⟨a, all, b, hl, rfl, hholds⟩ := hL.reading hredis us rfl
      have hall := hholds (hK.2 _ rfl a all b hl)
      have hsame : pushes m doc (l ++ [(i, ⟨.replace (m.updatesKey doc) (compacted squash all), r⟩)]) =
          pushes m doc l := pushes_append_of_none l i _ rfl
      rw [hsame]
      cases hexec
      unfold entries
      simp only [hredis, if_true, Function.update_self]
      exact hall.compact _
    · cases hexec
      apply hkept rfl
      unfold entries
      split_ifs with hredis
      · exact Function.update_of_ne (fun he ↦ hkey ⟨hredis, he.symm⟩) _ _
      · rfl
  | delete key =>
    have hne : m.updatesKey doc ≠ key := fun he ↦ hL.keeps.1 (by rw [he, Proc.head?_cmd])
    cases hexec
    apply hkept rfl
    unfold entries
    simp only [Function.update_of_ne hne]
  | appendMemory d u =>
    cases hexec
    by_cases hdoc : m.redis = false ∧ d = doc
    · obtain ⟨hredis, rfl⟩ := hdoc
      apply hpush (u := u)
      · simp [pushOf, hredis]
      · unfold entries at hG ⊢
        rw [hredis] at hG ⊢
        simp only [Bool.false_eq_true, if_false, Function.update_self, Option.getD_some] at hG ⊢
        exact holds_appended hG u
    · apply hkept
      · have hnot : ¬ ((!m.redis) = true ∧ d = doc) := by simpa using hdoc
        simp only [pushOf, if_neg hnot]
      · unfold entries
        split_ifs with hredis
        · rfl
        · have hne : doc ≠ d := fun he ↦ hdoc ⟨by simpa using hredis, he.symm⟩
          simp only [Function.update_of_ne hne]
  | removeAllMemory user_id =>
    have hstays : leavesEmpty (s.users doc) user_id = false := hK.1
    cases hexec
    apply hkept rfl
    unfold entries
    simp only [hstays, Bool.false_eq_true, if_false]
  | clearMemory d =>
    have hne : doc ≠ d := fun he ↦ hL.keeps.2 (by rw [he, Proc.head?_cmd])
    cases hexec
    apply hkept rfl
    unfold entries
    simp only [Function.update_of_ne hne]
  | _ =>
    cases hexec
    exact hkept rfl rfl

/-- What the thread relies on after its command. -/
theorem relies_own {i : ℕ} {op : Manager.Op U} {c : Command U} {k : Reply c → Client U (Result U)}
    {r : Reply c} {s s' : Store U} {l : Log U} (hrest : (m.program squash op).Rest (.cmd c k))
    (hexec : exec squash c s = some (r, s')) (hK : Kept m doc i c s l)
    (hG : Holds squash (entries m doc s) (base ++ (pushes m doc l).map Prod.snd)) :
    Relies m squash doc base i (k r) (l ++ [(i, ⟨c, r⟩)]) := by
  have hcareful := careful_of_rest hrest
  constructor
  · intro hredis us hhead
    obtain ⟨all, hread, hus⟩ := hcareful.replaces r _ us hhead
    cases hread
    have hall : all = s.lists (m.updatesKey doc) := by
      cases hexec
      rfl
    refine ⟨l, all, [], rfl, hus, fun _ ↦ ?_⟩
    have hsame : pushes m doc (l ++ [(i, ⟨.lrange (m.updatesKey doc), all⟩)]) = pushes m doc l :=
      pushes_append_of_none l i _ rfl
    rw [hsame, hall]
    unfold entries at hG
    rwa [if_pos hredis] at hG
  · constructor
    · intro hhead
      cases hcareful.deletes r doc hhead
      have hnone : s.sets (m.usersKey doc) = ∅ := congrArg Prod.fst (Option.some.inj hexec)
      exact hK.1 rfl hnone
    · intro hhead
      cases hcareful.clears r doc hhead
      have hnone : (s.users doc).getD ∅ = ∅ := congrArg Prod.fst (Option.some.inj hexec)
      exact hK.1 rfl hnone

/-- What a thread relies on survives the commands of the others. -/
theorem relies_other {i j : ℕ} {rest : Client U (Result U)} {c : Command U} {r : Reply c} {l : Log U}
    (h : Relies m squash doc base j rest l) : Relies m squash doc base j rest (l ++ [(i, ⟨c, r⟩)]) where
  reading hredis us hhead := by
    obtain ⟨a, all, b, hl, hus, hholds⟩ := h.reading hredis us hhead
    refine ⟨a, all, b ++ [(i, ⟨c, r⟩)], by rw [hl]; simp, hus, fun hquiet ↦ ?_⟩
    have hc : pushOf m doc c = none := hquiet (i, ⟨c, r⟩) (by simp)
    rw [pushes_append_of_none l i r hc]
    exact hholds fun e he ↦ hquiet e (List.mem_append_left _ he)
  keeps := h.keeps

variable (m squash doc base) in
theorem keeps_edits : Pool.Keeps (exec squash) (m.program squash) (Kept m doc)
    (fun s l ↦ Holds squash (entries m doc s) (base ++ (pushes m doc l).map Prod.snd))
    (fun i _ rest _ l ↦ Relies m squash doc base i rest l) where
  begin i op s l _ := by
    obtain ⟨c, k, hprog, hharmless, -⟩ := program_begins m squash doc op
    rw [hprog]
    exact relies_of_harmless hharmless
  own i op c k r s s' l hrest hexec hK hG hL :=
    ⟨holds_exec hexec hK hG hL, relies_own hrest hexec hK hG⟩
  other i op c k r s s' l j op' rest _ _ _ _ _ h := relies_other h

/-! ## Every append puts its update in once -/

/-- What of a thread's own update the document has been given. -/
def Given (m : Manager) (squash : List U → U) (doc : PyStr) (i : ℕ)
    (t : Thread (Command U) Reply (Result U) (Manager.Op U)) (l : Log U) : Prop :=
  t.rest = m.program squash t.op ∧ (pushes m doc l).filter (·.1 = i) = [] ∨
    Settled m squash doc t.rest ∧
      (pushes m doc l).filter (·.1 = i) = ((t.op.update? doc).map fun u ↦ (i, u)).toList

abbrev State (U : Type) := Pool (Store U) (Command U) Reply (Result U) (Manager.Op U)

/-- The documents after a schedule of operations, from a store nobody is working on. -/
abbrev after (m : Manager) (squash : List U → U) (s : Store U) (turns : List (Turn (Manager.Op U))) :
    State U :=
  Pool.run (exec squash) (m.program squash) (Pool.idle s) turns

variable (m squash doc) in
theorem given_run (s : Store U) (turns : List (Turn (Manager.Op U))) :
    (∀ i, (after m squash s turns).threads.length ≤ i →
        (pushes m doc (after m squash s turns).log).filter (·.1 = i) = []) ∧
      ∀ i t, (after m squash s turns).threads[i]? = some t →
        Given m squash doc i t (after m squash s turns).log := by
  refine Pool.run_invariant (I := fun q : State U ↦
    (∀ i, q.threads.length ≤ i → (pushes m doc q.log).filter (·.1 = i) = []) ∧
      ∀ i t, q.threads[i]? = some t → Given m squash doc i t q.log) ?_ ?_ ?_ turns
  · exact ⟨fun _ _ ↦ rfl, fun i t ht ↦ by simp [Pool.idle] at ht⟩
  · rintro q op ⟨hbeyond, hgiven⟩
    refine ⟨fun i hi ↦ hbeyond i ?_, fun i t ht ↦ ?_⟩
    · have hlen : (q.start op (m.program squash op)).threads.length = q.threads.length + 1 := by
        simp [Pool.start]
      omega
    · rcases Pool.getElem?_start ht with hold | ⟨rfl, rfl⟩
      · exact hgiven i t hold
      · exact Or.inl ⟨rfl, hbeyond _ le_rfl⟩
  · rintro q i op c k r s' hi - ⟨hbeyond, hgiven⟩
    have hlog : (q.commit i op c r s' (k r)).log = q.log ++ [(i, ⟨c, r⟩)] := rfl
    have hothers (j : ℕ) (hj : j ≠ i) :
        (pushes m doc (q.log ++ [(i, ⟨c, r⟩)])).filter (·.1 = j) =
          (pushes m doc q.log).filter (·.1 = j) := by
      rw [pushes_append, List.filter_append]
      cases pushOf m doc c with
      | none => exact List.append_nil _
      | some u => simp [Ne.symm hj]
    have hlen : (q.commit i op c r s' (k r)).threads.length = q.threads.length := by
      simp [Pool.commit]
    have hilt : i < q.threads.length := (List.getElem?_eq_some_iff.mp hi).choose
    rw [hlog]
    refine ⟨fun j hj ↦ ?_, fun j t ht ↦ ?_⟩
    · rw [hlen] at hj
      rw [hothers j (by omega)]
      exact hbeyond j hj
    · rcases Pool.getElem?_commit ht with ⟨rfl, rfl⟩ | ⟨hne, hold⟩
      · right
        rw [pushes_append, List.filter_append]
        rcases hgiven j _ hi with ⟨hprog, hnone⟩ | ⟨hsettled, hmine⟩
        · obtain ⟨c', k', hbegins, -, hpush, -, hrest⟩ :=
            program_begins m squash doc op
          obtain ⟨rfl, hk⟩ := Proc.cmd.inj (hprog.trans hbegins)
          obtain rfl := eq_of_heq hk
          refine ⟨hrest r, ?_⟩
          rw [hnone, hpush]
          cases op.update? doc with
          | none => rfl
          | some u => simp
        · refine ⟨hsettled.after r, ?_⟩
          rw [hmine, (hsettled c k .start).2]
          exact List.append_nil _
      · unfold Given
        rw [hothers j hne]
        exact hgiven j t hold

/-- The updates of a document that keeps a user are those that were put into it, each by itself or
within a snapshot, once, and in the order they came, after every run in which nothing is put into it
between a compaction's read and its replacement; and each append that returned put its update in. -/
theorem no_edit_lost (m : Manager) (squash : List U → U) (doc : PyStr) (s : Store U)
    (turns : List (Turn (Manager.Op U)))
    (hkept : Pool.Along (exec squash) (m.program squash) (Pool.Taking (Kept m doc)) (Pool.idle s) turns) :
    (∀ document_id, stored document_id = doc →
      Pool.alone (exec squash) 1 (m.getUpdates document_id) (after m squash s turns).store =
        (.ret (.updates (entries m doc (after m squash s turns).store)),
          (after m squash s turns).store)) ∧
      Holds squash (entries m doc (after m squash s turns).store)
        (entries m doc s ++ (pushes m doc (after m squash s turns).log).map Prod.snd) ∧
      ∀ i document_id u a, stored document_id = doc →
        (after m squash s turns).threads[i]? = some ⟨.append document_id u, .ret a⟩ →
          (pushes m doc (after m squash s turns).log).filter (·.1 = i) = [(i, u)] := by
  have hruns := (keeps_edits m squash doc (entries m doc s)).run (s := s)
    (by show Holds squash _ (_ ++ []); rw [List.append_nil]; exact Holds.self _) turns hkept
  refine ⟨?_, hruns.1, ?_⟩
  · rintro document_id rfl
    rw [m.getUpdates_eq]
    unfold entries
    split_ifs
    · rfl
    · rfl
  · rintro i document_id u a rfl hi
    rcases (given_run m squash (stored document_id) s turns).2 i _ hi with ⟨hprog, -⟩ | ⟨-, hmine⟩
    · obtain ⟨c, k, hbegins, -⟩ :=
        program_begins m squash (stored document_id) (.append document_id u)
      cases hprog.trans hbegins
    · simpa [Manager.Op.update?] using hmine

end

/-! ## A push between the read and the replacement -/

def sampleManager : Manager := ⟨true, py "ydoc"⟩

/-- A document with a user and 499 updates. -/
def sampleStore : Store ℕ where
  lists := Function.update (fun _ ↦ []) (sampleManager.updatesKey (py "d")) (List.replicate 499 0)
  sets := Function.update (fun _ ↦ ∅) (sampleManager.usersKey (py "d")) {py "s"}
  updates := fun _ ↦ none
  users := fun _ ↦ none

/-- The 500th append compacts; another one pushes between its read and its replacement. -/
def racingTurns : List (Turn (Manager.Op ℕ)) :=
  [.start (.append (py "d") 0), .resume 0, .resume 0, .resume 0, .start (.append (py "d") 1),
    .resume 1, .resume 0, .resume 1]

def allReturned (p : State ℕ) : Bool :=
  p.threads.all fun t ↦ match t.rest with
    | .ret _ => true
    | .cmd _ _ => false

theorem quiet_of_allReturned {p : State ℕ} (h : allReturned p = true) : p.Quiet := by
  intro t ht
  have hret := List.all_eq_true.mp h t ht
  rcases hrest : t.rest with a | ⟨c, k⟩
  · exact ⟨a, rfl⟩
  · rw [hrest] at hret
    cases hret

theorem push_between_is_lost : ¬ ∀ turns : List (Turn (Manager.Op ℕ)),
    (∀ op, .start op ∈ turns → ∃ document_id u, op = .append document_id u) →
      (after sampleManager List.sum sampleStore turns).Quiet →
        Holds List.sum (entries sampleManager (py "d")
            (after sampleManager List.sum sampleStore turns).store)
          (entries sampleManager (py "d") sampleStore ++ (pushes sampleManager (py "d")
            (after sampleManager List.sum sampleStore turns).log).map Prod.snd) := by
  intro hclaim
  have happends : ∀ op, .start op ∈ racingTurns →
      ∃ document_id u, op = Manager.Op.append document_id u := by
    intro op hop
    simp only [racingTurns, List.mem_cons, Turn.start.injEq, List.not_mem_nil, or_false,
      reduceCtorEq, false_or] at hop
    rcases hop with rfl | rfl
    · exact ⟨_, _, rfl⟩
    · exact ⟨_, _, rfl⟩
  have hholds := hclaim racingTurns happends (quiet_of_allReturned (by decide +kernel))
  have hsum := hholds.sum_content id (fun us ↦ by rw [List.map_id]; rfl)
  exact absurd hsum (by decide +kernel)

/-- Two appends whose commands alternate. -/
def alternatingTurns : List (Turn (Manager.Op ℕ)) :=
  [.start (.append (py "d") 7), .start (.append (py "d") 8), .resume 0, .resume 1, .resume 0,
    .resume 1]

theorem alternating_appends_kept :
    Holds List.sum (entries sampleManager (py "d")
        (after sampleManager List.sum ⟨fun _ ↦ [], fun _ ↦ {py "s"}, fun _ ↦ none, fun _ ↦ none⟩
          alternatingTurns).store)
      (([] : List ℕ) ++ (pushes sampleManager (py "d")
        (after sampleManager List.sum ⟨fun _ ↦ [], fun _ ↦ {py "s"}, fun _ ↦ none, fun _ ↦ none⟩
          alternatingTurns).log).map Prod.snd) := by
  have hkept : Pool.Along (exec List.sum) (sampleManager.program List.sum)
      (Pool.Taking (Kept sampleManager (py "d")))
      (Pool.idle ⟨fun _ ↦ [], fun _ ↦ {py "s"}, fun _ ↦ none, fun _ ↦ none⟩) alternatingTurns := by
    refine Pool.along_cons trivial (Pool.along_cons trivial (Pool.along_cons ?_ (Pool.along_cons ?_
      (Pool.along_cons ?_ (Pool.along_cons ?_ (Pool.along_nil _ _))))))
    all_goals
      intro op c k h
      cases h
      exact ⟨trivial, fun us hc ↦ by cases hc⟩
  exact (no_edit_lost sampleManager List.sum (py "d") _ alternatingTurns hkept).2.1

end FourCE.Socket.Ydoc

import FourCE.Chats.History
import FourCE.Library.Acyclic

/-!
# A conversation stays a tree

The two ways in which messages are linked say the same, and no message is above itself.  Each operation
is described by what it does to the parents and to the lists of children; that these stay a tree follows
from that.
-/

namespace FourCE.Chats

open FourCE.Library FourCE.Python Relation

variable {messages messages' : Messages}

/-- `id` names `p` as its parent. -/
def IsParent (messages : Messages) (id p : PyStr) : Prop :=
  ∃ m, messages.get? id = some m ∧ m.parentId = some p

structure WellFormed (h : History) : Prop where
  parent_mem : ∀ id p, IsParent h.messages id p → p ∈ h.messages.keys
  child_mem : ∀ p id, id ∈ childrenOf h.messages p → id ∈ h.messages.keys
  once : ∀ id p, IsParent h.messages id p → (childrenOf h.messages p).count id = 1
  only : ∀ id p, id ∈ h.messages.keys → id ∈ childrenOf h.messages p → IsParent h.messages id p
  acyclic : Acyclic (IsParent h.messages)
  current : ∀ id, h.currentId = some id → id ∈ h.messages.keys

/-- The same of the messages, with each link said once: a list of children has those that name the
parent, each once. -/
structure Linked (messages : Messages) : Prop where
  nodup : ∀ p, (childrenOf messages p).Nodup
  listed : ∀ id p, id ∈ childrenOf messages p ↔ IsParent messages id p
  acyclic : Acyclic (IsParent messages)

theorem IsParent.mem {id p : PyStr} (h : IsParent messages id p) : id ∈ messages.keys := by
  obtain ⟨m, hm, -⟩ := h
  exact Keyed.mem_keys.mpr ⟨m, hm⟩

theorem mem_of_childrenOf {id p : PyStr} (h : id ∈ childrenOf messages p) : p ∈ messages.keys := by
  unfold childrenOf at h
  rcases hp : messages.get? p with _ | m
  · rw [hp] at h
    cases h
  · exact Keyed.mem_keys.mpr ⟨m, hp⟩

theorem Linked.parent_mem (h : Linked messages) {id p : PyStr} (hp : IsParent messages id p) :
    p ∈ messages.keys := mem_of_childrenOf ((h.listed id p).mpr hp)

theorem Linked.child_mem (h : Linked messages) {id p : PyStr} (hid : id ∈ childrenOf messages p) :
    id ∈ messages.keys := ((h.listed id p).mp hid).mem

theorem wellFormed_iff (h : History) :
    WellFormed h ↔ Linked h.messages ∧ ∀ id, h.currentId = some id → id ∈ h.messages.keys := by
  constructor
  · intro hwf
    have honly : ∀ id p, id ∈ childrenOf h.messages p → IsParent h.messages id p := fun id p hid ↦
      hwf.only id p (hwf.child_mem p id hid) hid
    refine ⟨⟨fun p ↦ ?_, fun id p ↦ ⟨honly id p, fun hp ↦ ?_⟩, hwf.acyclic⟩, hwf.current⟩
    · rw [List.nodup_iff_count_le_one]
      intro id
      by_cases hid : id ∈ childrenOf h.messages p
      · exact le_of_eq (hwf.once id p (honly id p hid))
      · rw [List.count_eq_zero_of_not_mem hid]
        exact Nat.zero_le _
    · have hcount := hwf.once id p hp
      exact List.count_pos_iff.mp (by omega)
  · rintro ⟨hlinked, hcurrent⟩
    refine ⟨fun id p ↦ hlinked.parent_mem, fun p id ↦ hlinked.child_mem, fun id p hp ↦ ?_,
      fun id p _ ↦ (hlinked.listed id p).mp, hlinked.acyclic, hcurrent⟩
    exact List.count_eq_one_of_mem (hlinked.nodup p) ((hlinked.listed id p).mpr hp)

/-! ## Links that stay -/

theorem isParent_congr {id p : PyStr}
    (h : (messages'.get? id).bind Message.parentId = (messages.get? id).bind Message.parentId) :
    IsParent messages' id p ↔ IsParent messages id p := by
  have hbind : ∀ ms : Messages, IsParent ms id p ↔ (ms.get? id).bind Message.parentId = some p :=
    fun ms ↦ Option.bind_eq_some_iff.symm
  rw [hbind, hbind, h]

theorem Linked.of_links (h : Linked messages)
    (hparent : ∀ id p, IsParent messages' id p ↔ IsParent messages id p)
    (hchildren : ∀ id, childrenOf messages' id = childrenOf messages id) : Linked messages' := by
  refine ⟨fun p ↦ ?_, fun id p ↦ ?_, h.acyclic.shorten fun id p hp ↦ .single ((hparent id p).mp hp)⟩
  · rw [hchildren]
    exact h.nodup p
  · rw [hchildren, hparent]
    exact h.listed id p

/-- A child that is listed is not listed again. -/
theorem addChildIdToParent_listed (h : Linked messages) {id : PyStr} {parent_id : Option PyStr}
    (hp : ∀ p, parent_id = some p → IsParent messages id p) :
    addChildIdToParent messages parent_id id = (messages, false) := by
  unfold addChildIdToParent
  split
  · rfl
  · next p =>
    split_ifs
    · rfl
    · split
      · rfl
      · next parent hparent =>
        have hmem : id ∈ parent.childrenIds := by
          have hlisted := (h.listed id p).mpr (hp p rfl)
          unfold childrenOf at hlisted
          rwa [hparent] at hlisted
        rw [if_pos hmem]

theorem addChildIds_linked (h : Linked messages) : addChildIds messages = (messages, false) := by
  unfold addChildIds
  have hsame : ∀ es : List (PyStr × Message), (∀ e ∈ es, e ∈ messages.entries) →
      es.foldl (fun acc e ↦
        let added := addChildIdToParent acc.1 e.2.parentId e.1
        (added.1, added.2 || acc.2)) (messages, false) = (messages, false) := by
    intro es
    induction es with
    | nil => exact fun _ ↦ rfl
    | cons e es ih =>
      intro hes
      have he : messages.get? e.1 = some e.2 := Keyed.get?_eq_some_iff.mpr (hes e List.mem_cons_self)
      have hkept := addChildIdToParent_listed h
        fun p hp ↦ ⟨e.2, he, hp⟩
      rw [List.foldl_cons]
      simp only [hkept]
      exact ih fun e' he' ↦ hes e' (List.mem_cons_of_mem _ he')
  exact hsame _ fun _ he ↦ he

/-! ## Updating and inserting a message -/

theorem isParent_set {id : PyStr} (saved : Message) (x y : PyStr) :
    IsParent (messages.set id saved) x y ↔
      if x = id then saved.parentId = some y else IsParent messages x y := by
  unfold IsParent
  rw [Keyed.get?_set]
  split_ifs with hx
  · simp
  · rfl

theorem childrenOf_set {id : PyStr} (saved : Message) (y : PyStr) :
    childrenOf (messages.set id saved) y =
      if y = id then saved.childrenIds else childrenOf messages y := by
  unfold childrenOf
  rw [Keyed.get?_set]
  split_ifs with hy
  · rfl
  · rfl

theorem isParent_addChild {id p : PyStr} (x y : PyStr) :
    IsParent (messages.modify p (addChild id)) x y ↔ IsParent messages x y := by
  apply isParent_congr
  rw [Keyed.get?_modify]
  split_ifs
  · cases messages.get? x with
    | none => rfl
    | some m => rfl
  · rfl

theorem childrenOf_addChild {id p : PyStr} (hp : p ∈ messages.keys) (y : PyStr) :
    childrenOf (messages.modify p (addChild id)) y =
      childrenOf messages y ++ if p = y then [id] else [] := by
  obtain ⟨m, hm⟩ := Keyed.mem_keys.mp hp
  unfold childrenOf
  rw [Keyed.get?_modify]
  by_cases hy : p = y
  · subst hy
    rw [if_pos rfl, if_pos rfl, hm]
    rfl
  · rw [if_neg hy, if_neg fun he ↦ hy he.symm, List.append_nil]

theorem childrenOf_of_notMem {p : PyStr} (hp : p ∉ messages.keys) : childrenOf messages p = [] := by
  unfold childrenOf
  rw [Keyed.get?_eq_none.mpr hp]
  rfl

/-- Listing a child changes no message's parent. -/
theorem addChildIdToParent_cases (messages : Messages) (parent_id : Option PyStr) (id : PyStr) :
    (addChildIdToParent messages parent_id id).1 = messages ∨
      ∃ p, (addChildIdToParent messages parent_id id).1 = messages.modify p (addChild id) := by
  unfold addChildIdToParent
  split
  · exact Or.inl rfl
  · next p =>
    split_ifs
    · exact Or.inl rfl
    · split
      · exact Or.inl rfl
      · split_ifs
        · exact Or.inl rfl
        · exact Or.inr ⟨p, rfl⟩

theorem keys_addChildIdToParent (messages : Messages) (parent_id : Option PyStr) (id : PyStr) :
    (addChildIdToParent messages parent_id id).1.keys = messages.keys := by
  rcases addChildIdToParent_cases messages parent_id id with hsame | ⟨p, hadded⟩
  · rw [hsame]
  · rw [hadded, Keyed.keys_modify]

theorem isParent_addChildIdToParent (messages : Messages) (parent_id : Option PyStr) (id x y : PyStr) :
    IsParent (addChildIdToParent messages parent_id id).1 x y ↔ IsParent messages x y := by
  rcases addChildIdToParent_cases messages parent_id id with hsame | ⟨p, hadded⟩
  · rw [hsame]
  · rw [hadded, isParent_addChild]

/-- A new message at the end of its parent's list. -/
theorem Linked.grow (h : Linked messages) {id : PyStr} {parent_id : Option PyStr}
    (hid : id ∉ messages.keys) (hmem : ∀ p, parent_id = some p → p ∈ messages.keys)
    (hparent : ∀ x y, IsParent messages' x y ↔ IsParent messages x y ∨ x = id ∧ parent_id = some y)
    (hchildren : ∀ y, childrenOf messages' y =
      childrenOf messages y ++ if parent_id = some y then [id] else []) : Linked messages' := by
  have hunlisted : ∀ p, id ∉ childrenOf messages p := fun p hin ↦ hid (h.child_mem hin)
  refine ⟨fun p ↦ ?_, fun x p ↦ ?_, ?_⟩
  · rw [hchildren]
    split_ifs
    · exact (h.nodup p).append (List.nodup_singleton id)
        (List.disjoint_singleton.mpr (hunlisted p))
    · rw [List.append_nil]
      exact h.nodup p
  · rw [hchildren, hparent, List.mem_append, h.listed]
    apply or_congr_right
    split_ifs with hp
    · rw [List.mem_singleton, and_iff_left hp]
    · simp [hp]
  · rcases parent_id with _ | p
    · exact h.acyclic.shorten fun x y hxy ↦ .single (((hparent x y).mp hxy).resolve_right (by simp))
    · have hp : p ≠ id := fun he ↦ hid (he ▸ hmem p rfl)
      refine (h.acyclic.leaf (a := id) (fun x hx ↦ hid (h.parent_mem hx)) hp).shorten
        fun x y hxy ↦ .single (((hparent x y).mp hxy).imp_right fun hnew ↦ ⟨hnew.1, ?_⟩)
      exact (Option.some.inj hnew.2).symm

theorem listedUnder_new (h : Linked messages) {id : PyStr} (hid : id ∉ messages.keys) :
    listedUnder messages id = none := by
  unfold listedUnder
  rw [Option.map_eq_none_iff, List.find?_eq_none]
  intro e he hin
  have hlisted : id ∈ childrenOf messages e.1 := by
    unfold childrenOf
    rw [Keyed.get?_eq_some_iff.mpr he]
    simpa using hin
  exact hid (h.child_mem hlisted)

/-- The parent that an incoming message names. -/
def Payload.parent (message : Payload) : Option PyStr := message.parentId.getD none

theorem newMessage_parentId (h : Linked messages) {id : PyStr} (hid : id ∉ messages.keys)
    (message : Payload) (now : ℕ) : (newMessage messages id message now).parentId = message.parent := by
  show (message.parentId.getD none).or (listedUnder messages id) = _
  rw [listedUnder_new h hid, Option.or_none]
  rfl

/-- What a new message needs: a parent that is there, with an id that is not empty. -/
def Insertable (messages : Messages) (id : PyStr) (message : Payload) : Prop :=
  id ∉ messages.keys ∧ message.childrenIds = none ∧
    ∀ p, message.parent = some p → p ∈ messages.keys ∧ p ≠ []

def Updatable (messages : Messages) (id : PyStr) (message : Payload) : Prop :=
  id ∈ messages.keys ∧ message.parentId = none ∧ message.childrenIds = none

theorem upsert_new (h : Linked messages) {id : PyStr} {message : Payload}
    (hinsert : Insertable messages id message) (currentId : Option PyStr) (now : ℕ) :
    (upsertMessageToHistory ⟨messages, currentId⟩ id message now).1 =
      ⟨(addChildIdToParent (messages.set id (newMessage messages id message now)) message.parent id).1,
        some id⟩ := by
  unfold upsertMessageToHistory
  simp only [Keyed.get?_eq_none.mpr hinsert.1, if_neg hinsert.1]
  rw [newMessage_parentId h hinsert.1]

/-- A named parent gets the new message listed. -/
theorem addChildIdToParent_new {id p : PyStr} (hp : p ∈ messages.keys) (hne : p ≠ [])
    (hunlisted : id ∉ childrenOf messages p) :
    addChildIdToParent messages (some p) id = (messages.modify p (addChild id), true) := by
  obtain ⟨parent, hparent⟩ := Keyed.mem_keys.mp hp
  have hnot : id ∉ parent.childrenIds := by
    unfold childrenOf at hunlisted
    rwa [hparent] at hunlisted
  unfold addChildIdToParent
  simp only [if_neg hne, hparent, if_neg hnot]

section UpsertNew

variable (h : Linked messages) {id : PyStr} {message : Payload}
  (hinsert : Insertable messages id message) (currentId : Option PyStr) (now : ℕ)

include h hinsert

theorem keys_upsert_new :
    (upsertMessageToHistory ⟨messages, currentId⟩ id message now).1.messages.keys =
      messages.keys ++ [id] := by
  rw [upsert_new h hinsert, keys_addChildIdToParent, Keyed.keys_set, if_neg hinsert.1]

theorem isParent_set_new (x y : PyStr) :
    IsParent (messages.set id (newMessage messages id message now)) x y ↔
      IsParent messages x y ∨ x = id ∧ message.parent = some y := by
  rw [isParent_set]
  split_ifs with hx
  · rw [newMessage_parentId h hinsert.1, hx]
    exact ⟨fun hy ↦ Or.inr ⟨rfl, hy⟩, fun hy ↦ hy.elim (fun hm ↦ absurd hm.mem hinsert.1) And.right⟩
  · simp [hx]

theorem isParent_upsert_new (x y : PyStr) :
    IsParent (upsertMessageToHistory ⟨messages, currentId⟩ id message now).1.messages x y ↔
      IsParent messages x y ∨ x = id ∧ message.parent = some y := by
  rw [upsert_new h hinsert, isParent_addChildIdToParent]
  exact isParent_set_new h hinsert now x y

omit h in
theorem childrenOf_set_new (y : PyStr) :
    childrenOf (messages.set id (newMessage messages id message now)) y = childrenOf messages y := by
  rw [childrenOf_set]
  split_ifs with hy
  · rw [hy, childrenOf_of_notMem hinsert.1]
    show message.childrenIds.getD [] = []
    rw [hinsert.2.1]
    rfl
  · rfl

theorem linked_upsert_new :
    Linked (upsertMessageToHistory ⟨messages, currentId⟩ id message now).1.messages := by
  refine h.grow hinsert.1 (fun p hp ↦ (hinsert.2.2 p hp).1)
    (isParent_upsert_new h hinsert currentId now) fun y ↦ ?_
  rw [upsert_new h hinsert]
  rcases hp : message.parent with _ | p
  · rw [if_neg (by simp), List.append_nil]
    exact childrenOf_set_new hinsert now y
  · obtain ⟨hmem, hne⟩ := hinsert.2.2 p hp
    have hmem' : p ∈ (messages.set id (newMessage messages id message now)).keys := by
      rw [Keyed.keys_set, if_neg hinsert.1]
      exact List.mem_append_left _ hmem
    have hunlisted : id ∉ childrenOf (messages.set id (newMessage messages id message now)) p := by
      rw [childrenOf_set_new hinsert]
      exact fun hin ↦ hinsert.1 (h.child_mem hin)
    rw [addChildIdToParent_new hmem' hne hunlisted, childrenOf_addChild hmem',
      childrenOf_set_new hinsert]
    simp

end UpsertNew

theorem upsert_old {id : PyStr} {old : Message} (hold : messages.get? id = some old)
    (message : Payload) (currentId : Option PyStr) (now : ℕ) :
    (upsertMessageToHistory ⟨messages, currentId⟩ id message now).1 =
      ⟨(addChildIdToParent (messages.set id (old.update message)) (old.update message).parentId id).1,
        currentId⟩ := by
  unfold upsertMessageToHistory
  simp only [hold, if_pos (Keyed.mem_keys.mpr ⟨old, hold⟩)]

theorem linked_set_update (h : Linked messages) {id : PyStr} {old saved : Message}
    (hold : messages.get? id = some old) (hparent : saved.parentId = old.parentId)
    (hchildren : saved.childrenIds = old.childrenIds) : Linked (messages.set id saved) := by
  refine h.of_links (fun x y ↦ ?_) fun y ↦ ?_
  · apply isParent_congr
    rw [Keyed.get?_set]
    split_ifs with hx
    · rw [hx, hold]
      exact hparent
    · rfl
  · rw [childrenOf_set]
    split_ifs with hy
    · unfold childrenOf
      rw [hy, hold]
      exact hchildren
    · rfl

/-- A message that is there and listed. -/
theorem upsert_old_links (h : Linked messages) {id : PyStr} {old : Message} {message : Payload}
    (hold : messages.get? id = some old) (hparent : message.parentId = none)
    (hchildren : message.childrenIds = none) (currentId : Option PyStr) (now : ℕ) :
    (upsertMessageToHistory ⟨messages, currentId⟩ id message now).1 =
        ⟨messages.set id (old.update message), currentId⟩ ∧
      Linked (messages.set id (old.update message)) := by
  have hparent' : (old.update message).parentId = old.parentId := by
    unfold Message.update
    rw [hparent]
    rfl
  have hchildren' : (old.update message).childrenIds = old.childrenIds := by
    unfold Message.update
    rw [hchildren]
    rfl
  have hlinked := linked_set_update h hold hparent' hchildren'
  refine ⟨?_, hlinked⟩
  have hlisted := addChildIdToParent_listed hlinked fun p hp ↦
    ⟨old.update message, by rw [Keyed.get?_set, if_pos rfl], hp⟩
  rw [upsert_old hold, hlisted]

/-! ## Deleting a message -/

theorem IsParent.unique {id p q : PyStr} (h : IsParent messages id p) (h' : IsParent messages id q) :
    p = q := by
  obtain ⟨m, hm, hp⟩ := h
  obtain ⟨m', hm', hq⟩ := h'
  have hsame : m = m' := Option.some.inj (hm.symm.trans hm')
  subst hsame
  exact Option.some.inj (hp.symm.trans hq)

theorem Linked.childIds_eq (h : Linked messages) (id : PyStr) :
    childIds messages id = childrenOf messages id := by
  unfold childIds
  rw [List.filter_eq_self]
  intro c hc
  exact decide_eq_true (h.child_mem hc)

theorem Linked.mem_grandchildIds (h : Linked messages) {id x : PyStr} :
    x ∈ grandchildIds messages id ↔ ∃ c, IsParent messages c id ∧ IsParent messages x c := by
  unfold grandchildIds
  rw [List.mem_flatMap]
  apply exists_congr
  intro c
  rw [h.childIds_eq, h.childIds_eq, h.listed, h.listed]

theorem Linked.nodup_grandchildIds (h : Linked messages) (id : PyStr) :
    (grandchildIds messages id).Nodup := by
  unfold grandchildIds
  rw [List.nodup_flatMap, h.childIds_eq]
  refine ⟨fun c _ ↦ ?_, (h.nodup id).imp_of_mem fun {c c'} _ _ hne x hx hx' ↦ ?_⟩
  · rw [h.childIds_eq]
    exact h.nodup c
  · rw [h.childIds_eq, h.listed] at hx hx'
    exact hne (hx.unique hx')

section TakeOut

variable {id : PyStr} {m : Message}

theorem get?_takeOut (parent_id : Option PyStr) (x : PyStr) :
    (takeOut messages id parent_id).get? x =
      if x ∈ id :: childIds messages id then none
      else (messages.get? x).map fun m ↦ { m with
        childrenIds := if parent_id = some x then
            m.childrenIds.filter (· ≠ id) ++ grandchildIds messages id
          else m.childrenIds
        parentId := if x ∈ grandchildIds messages id then parent_id else m.parentId } := by
  unfold takeOut
  rw [Keyed.get?_filterKeys, Keyed.get?_map]
  by_cases hx : x ∈ id :: childIds messages id
  · rw [if_neg (by rw [decide_eq_true_eq]; exact not_not.mpr hx), if_pos hx]
  · rw [if_pos (decide_eq_true hx), if_neg hx]

/-- Deleted with the message: it and its children. -/
theorem Linked.mem_gone (h : Linked messages) (x : PyStr) :
    x ∈ id :: childIds messages id ↔ x = id ∨ IsParent messages x id := by
  rw [List.mem_cons, h.childIds_eq, h.listed]

theorem Linked.isParent_takeOut (h : Linked messages) (parent_id : Option PyStr) (x y : PyStr) :
    IsParent (takeOut messages id parent_id) x y ↔ ¬ (x = id ∨ IsParent messages x id) ∧
      (x ∈ grandchildIds messages id ∧ parent_id = some y ∨
        x ∉ grandchildIds messages id ∧ IsParent messages x y) := by
  rw [← h.mem_gone]
  unfold IsParent
  rw [get?_takeOut]
  by_cases hgone : x ∈ id :: childIds messages id
  · simp [hgone]
  · rw [if_neg hgone, and_iff_right hgone]
    by_cases hx : x ∈ grandchildIds messages id
    · obtain ⟨c, -, m, hm, hc⟩ := h.mem_grandchildIds.mp hx
      simp [hx, hm]
    · simp [hx]

theorem Linked.childrenOf_takeOut (h : Linked messages) (hm : messages.get? id = some m) (y : PyStr) :
    childrenOf (takeOut messages id m.parentId) y =
      if y ∈ id :: childIds messages id then []
      else if m.parentId = some y then
        (childrenOf messages y).filter (· ≠ id) ++ grandchildIds messages id
      else childrenOf messages y := by
  unfold childrenOf
  rw [get?_takeOut]
  by_cases hgone : y ∈ id :: childIds messages id
  · rw [if_pos hgone, if_pos hgone]
    rfl
  · rw [if_neg hgone, if_neg hgone]
    rcases hy : messages.get? y with _ | my
    · have hne : m.parentId ≠ some y := fun hp ↦
        Keyed.get?_eq_none.mp hy (h.parent_mem ⟨m, hm, hp⟩)
      rw [if_neg hne]
      rfl
    · rfl

/-- A message, its children and its parent are different messages. -/
theorem Linked.parent_kept (h : Linked messages) (hm : messages.get? id = some m) {p : PyStr}
    (hp : m.parentId = some p) : ¬ (p = id ∨ IsParent messages p id) := by
  have hparent : IsParent messages id p := ⟨m, hm, hp⟩
  rintro (rfl | hcycle)
  · exact h.acyclic.ne hparent rfl
  · exact h.acyclic id ((TransGen.single hparent).tail hcycle)

theorem Linked.grandchild_kept (h : Linked messages) {x : PyStr}
    (hx : x ∈ grandchildIds messages id) : ¬ (x = id ∨ IsParent messages x id) := by
  obtain ⟨c, hc, hxc⟩ := h.mem_grandchildIds.mp hx
  rintro (rfl | hchild)
  · exact h.acyclic x ((TransGen.single hxc).tail hc)
  · exact h.acyclic.ne hc (hxc.unique hchild)

theorem linked_takeOut (h : Linked messages) (hm : messages.get? id = some m) :
    Linked (takeOut messages id m.parentId) := by
  have hdisjoint : ∀ p, m.parentId = some p → ∀ x, IsParent messages x p →
      x ∉ grandchildIds messages id := by
    intro p hp x hx hgrand
    obtain ⟨c, hc, hxc⟩ := h.mem_grandchildIds.mp hgrand
    exact h.parent_kept hm hp (Or.inr (hx.unique hxc ▸ hc))
  refine ⟨fun p ↦ ?_, fun x p ↦ ?_, h.acyclic.shorten fun x p hp ↦ ?_⟩
  · rw [h.childrenOf_takeOut hm]
    split_ifs with hgone hp
    · exact List.nodup_nil
    · refine ((h.nodup p).filter _).append (h.nodup_grandchildIds id) fun x hx hgrand ↦ ?_
      exact hdisjoint p hp x ((h.listed x p).mp (List.mem_of_mem_filter hx)) hgrand
    · exact h.nodup p
  · rw [h.childrenOf_takeOut hm, h.isParent_takeOut]
    split_ifs with hgone hp
    · rw [h.mem_gone] at hgone
      refine iff_of_false (by simp) ?_
      rintro ⟨hkept, ⟨-, hp⟩ | ⟨hgrand, hp⟩⟩
      · exact h.parent_kept hm hp hgone
      · rcases hgone with rfl | hchild
        · exact hkept (Or.inr hp)
        · exact hgrand (h.mem_grandchildIds.mpr ⟨p, hchild, hp⟩)
    · rw [h.mem_gone] at hgone
      rw [List.mem_append, List.mem_filter, h.listed, decide_eq_true_eq]
      constructor
      · rintro (⟨hx, hne⟩ | hgrand)
        · refine ⟨?_, Or.inr ⟨hdisjoint p hp x hx, hx⟩⟩
          rintro (rfl | hchild)
          · exact hne rfl
          · exact hgone (Or.inl (hx.unique hchild))
        · exact ⟨h.grandchild_kept hgrand, Or.inl ⟨hgrand, hp⟩⟩
      · rintro ⟨hkept, ⟨hgrand, -⟩ | ⟨-, hx⟩⟩
        · exact Or.inr hgrand
        · exact Or.inl ⟨hx, fun he ↦ hkept (Or.inl he)⟩
    · rw [h.mem_gone] at hgone
      rw [h.listed]
      constructor
      · intro hx
        refine ⟨?_, Or.inr ⟨fun hgrand ↦ ?_, hx⟩⟩
        · rintro (rfl | hchild)
          · obtain ⟨m', hm', hp'⟩ := hx
            have hsame : m = m' := Option.some.inj (hm.symm.trans hm')
            exact hp (hsame ▸ hp')
          · exact hgone (Or.inl (hx.unique hchild))
        · obtain ⟨c, hc, hxc⟩ := h.mem_grandchildIds.mp hgrand
          exact hgone (Or.inr (hx.unique hxc ▸ hc))
      · rintro ⟨-, ⟨-, hp'⟩ | ⟨-, hx⟩⟩
        · exact absurd hp' hp
        · exact hx
  · rcases ((h.isParent_takeOut _ x p).mp hp).2 with ⟨hgrand, hparent⟩ | ⟨-, hsame⟩
    · obtain ⟨c, hc, hxc⟩ := h.mem_grandchildIds.mp hgrand
      exact ((TransGen.single hxc).tail hc).tail ⟨m, hm, hparent⟩
    · exact .single hsame

end TakeOut

/-! ## Merging two histories -/

/-- The ids of the messages that name `p`, in their order. -/
def namedBy (es : List (PyStr × Message)) (p : PyStr) : List PyStr :=
  (es.filter fun e ↦ e.2.parentId = some p).map Prod.fst

theorem get?_foldl_addChild (p : PyStr) (es : List (PyStr × Message)) (ms : Messages) :
    (es.foldl (fun merged e ↦ match e.2.parentId with
      | none => merged
      | some q => merged.modify q (addChild e.1)) ms).get? p =
    (ms.get? p).map fun m ↦ { m with childrenIds := m.childrenIds ++ namedBy es p } := by
  induction es generalizing ms with
  | nil => simp [namedBy]
  | cons e es ih =>
    rw [List.foldl_cons, ih]
    rcases hq : e.2.parentId with _ | q
    · simp [namedBy, hq]
    · rw [Keyed.get?_modify]
      by_cases hp : p = q
      · subst hp
        rw [if_pos rfl, Option.map_map]
        simp [namedBy, hq, addChild, Function.comp_def]
      · have hne : q ≠ p := fun he ↦ hp he.symm
        rw [if_neg hp]
        simp [namedBy, hq, hne]

theorem get?_linkChildren (messages : Messages) (p : PyStr) :
    (linkChildren messages).get? p = (messages.get? p).map fun m ↦
      { m with childrenIds := m.childrenIds ++ namedBy messages.entries p } :=
  get?_foldl_addChild p messages.entries messages

theorem mem_namedBy {x p : PyStr} : x ∈ namedBy messages.entries p ↔ IsParent messages x p := by
  unfold namedBy IsParent
  rw [List.mem_map]
  constructor
  · rintro ⟨⟨_, m⟩, he, rfl⟩
    obtain ⟨he, hp⟩ := List.mem_filter.mp he
    exact ⟨m, Keyed.get?_eq_some_iff.mpr he, of_decide_eq_true hp⟩
  · rintro ⟨m, hm, hp⟩
    exact ⟨(x, m), List.mem_filter.mpr ⟨Keyed.get?_eq_some_iff.mp hm, decide_eq_true hp⟩, rfl⟩

theorem isParent_linkChildren (messages : Messages) (x p : PyStr) :
    IsParent (linkChildren messages) x p ↔ IsParent messages x p := by
  apply isParent_congr
  rw [get?_linkChildren]
  cases messages.get? x with
  | none => rfl
  | some m => rfl

theorem mem_linkChildren (messages : Messages) (p : PyStr) :
    p ∈ (linkChildren messages).keys ↔ p ∈ messages.keys := by
  rw [Keyed.mem_keys, Keyed.mem_keys, get?_linkChildren]
  cases messages.get? p with
  | none => simp
  | some m => simp

/-- Messages without children, each put under its parent. -/
theorem linked_linkChildren (hnone : ∀ p, childrenOf messages p = [])
    (hmem : ∀ x p, IsParent messages x p → p ∈ messages.keys) (hacyclic : Acyclic (IsParent messages)) :
    Linked (linkChildren messages) := by
  have hparent := isParent_linkChildren messages
  have hchildren : ∀ p ∈ messages.keys,
      childrenOf (linkChildren messages) p = namedBy messages.entries p := by
    intro p hp
    obtain ⟨m, hm⟩ := Keyed.mem_keys.mp hp
    have hempty : m.childrenIds = [] := by
      have hp := hnone p
      unfold childrenOf at hp
      rwa [hm] at hp
    unfold childrenOf
    rw [get?_linkChildren, hm, Option.map_some]
    show m.childrenIds ++ _ = _
    rw [hempty, List.nil_append]
  have hkeys := mem_linkChildren messages
  refine ⟨fun p ↦ ?_, fun x p ↦ ?_, hacyclic.shorten fun x p hp ↦ .single ((hparent x p).mp hp)⟩
  · by_cases hp : p ∈ messages.keys
    · rw [hchildren p hp]
      exact (List.filter_sublist.map Prod.fst).nodup messages.nodup
    · rw [childrenOf_of_notMem fun hin ↦ hp ((hkeys p).mp hin)]
      exact List.nodup_nil
  · rw [hparent]
    by_cases hp : p ∈ messages.keys
    · rw [hchildren p hp, mem_namedBy]
    · rw [childrenOf_of_notMem fun hin ↦ hp ((hkeys p).mp hin)]
      exact iff_of_false (by simp) fun hx ↦ hp (hmem x p hx)

/-- Two histories with no message under another, one laid over the other. -/
def overlaid (existing incoming : Messages) : Messages :=
  (existing.union incoming).map fun _ m ↦ { m with childrenIds := [] }

theorem mem_overlaid {existing incoming : Messages} {x : PyStr} :
    x ∈ (overlaid existing incoming).keys ↔ x ∈ existing.keys ∨ x ∈ incoming.keys := by
  unfold overlaid
  rw [Keyed.keys_map, Keyed.mem_keys_union]

theorem isParent_overlaid (existing incoming : Messages) (x p : PyStr) :
    IsParent (overlaid existing incoming) x p ↔
      x ∈ incoming.keys ∧ IsParent incoming x p ∨ x ∉ incoming.keys ∧ IsParent existing x p := by
  unfold IsParent overlaid
  rw [Keyed.get?_map, Keyed.get?_union, Keyed.mem_keys]
  rcases incoming.get? x with _ | m
  · simp
  · simp

/-- Every message keeps the parent that its side gives it, and once in the incoming history the way up
stays there. -/
theorem linked_merge {existing incoming : Messages} (h : Linked existing) (h' : Linked incoming) :
    Linked (linkChildren (overlaid existing incoming)) := by
  refine linked_linkChildren (fun p ↦ ?_) (fun x p hx ↦ ?_) ?_
  · unfold childrenOf overlaid
    rw [Keyed.get?_map]
    cases (existing.union incoming).get? p with
    | none => rfl
    | some m => rfl
  · rw [mem_overlaid]
    rcases (isParent_overlaid existing incoming x p).mp hx with ⟨-, hin⟩ | ⟨-, hex⟩
    · exact Or.inr (h'.parent_mem hin)
    · exact Or.inl (h.parent_mem hex)
  · refine (h.acyclic.overlay h'.acyclic (P := (· ∈ incoming.keys)) fun x p _ hx ↦
      h'.parent_mem hx).shorten fun x p hx ↦ .single ?_
    exact (isParent_overlaid existing incoming x p).mp hx

end FourCE.Chats

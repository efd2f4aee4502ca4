import FourCE.Chats.Tree

/-!
# Histories under every sequence of operations

The loops over the links stop in a tree where they should, and each operation keeps a tree.  The empty
id takes no part in this: the code takes a parent id that is empty for none.
-/

namespace FourCE.Chats

open FourCE.Library FourCE.Python Relation

variable {messages : Messages}

theorem length_entries (messages : Messages) : messages.entries.length = messages.keys.length := by
  unfold Keyed.keys
  rw [List.length_map]

/-! ## The loops over the links -/

theorem lastDescendantId_mem {n : ℕ} {seen : List PyStr} {id : PyStr} (h : id ∈ messages.keys) :
    lastDescendantId messages n seen id ∈ messages.keys := by
  induction n generalizing seen id with
  | zero => exact h
  | succ n ih =>
    unfold lastDescendantId
    split
    · exact h
    · split_ifs
      · exact h
      · split
        · exact h
        · next next_id hnext =>
          split_ifs
          · exact h
          · exact ih (by simpa using List.find?_some hnext)

/-- As many steps as there are messages are enough. -/
theorem lastDescendantId_stop {n : ℕ} {seen : List PyStr} {id : PyStr} (hseen : seen.Nodup)
    (hsub : ∀ x ∈ seen, x ∈ messages.keys) (hn : messages.keys.length ≤ n + seen.length) :
    lastDescendantId messages (n + 1) seen id = lastDescendantId messages n seen id := by
  induction n generalizing seen id with
  | zero =>
    unfold lastDescendantId
    split
    · rfl
    · next m hm =>
      by_cases hid : id ∈ seen
      · rw [if_pos hid]
      · have hlt := length_lt_of_fresh hseen hsub (Keyed.mem_keys.mpr ⟨m, hm⟩) hid
        omega
  | succ n ih =>
    rw [lastDescendantId, lastDescendantId]
    split
    · rfl
    · next m hm =>
      by_cases hid : id ∈ seen
      · rw [if_pos hid, if_pos hid]
      · rw [if_neg hid, if_neg hid]
        split
        · rfl
        · split_ifs
          · rfl
          · refine ih (List.nodup_cons.mpr ⟨hid, hseen⟩) (fun x hx ↦ ?_) (by simp; omega)
            rcases List.mem_cons.mp hx with rfl | hx
            · exact Keyed.mem_keys.mpr ⟨m, hm⟩
            · exact hsub x hx

theorem messageChain_stop {n : ℕ} {visited : List PyStr} {id : PyStr} (hvisited : visited.Nodup)
    (hsub : ∀ x ∈ visited, x ∈ messages.keys) (hn : messages.keys.length ≤ n + visited.length) :
    messageChain messages (n + 1) visited id = messageChain messages n visited id := by
  induction n generalizing visited id with
  | zero =>
    unfold messageChain
    split
    · rfl
    · next m hm =>
      by_cases hid : id ∈ visited
      · rw [if_pos hid]
      · have hlt := length_lt_of_fresh hvisited hsub (Keyed.mem_keys.mpr ⟨m, hm⟩) hid
        omega
  | succ n ih =>
    rw [messageChain, messageChain]
    split
    · rfl
    · next m hm =>
      by_cases hid : id ∈ visited
      · rw [if_pos hid, if_pos hid]
      · rw [if_neg hid, if_neg hid]
        split
        · rfl
        · split_ifs
          · rfl
          · congr 1
            refine ih (List.nodup_cons.mpr ⟨hid, hvisited⟩) (fun x hx ↦ ?_) (by simp; omega)
            rcases List.mem_cons.mp hx with rfl | hx
            · exact Keyed.mem_keys.mpr ⟨m, hm⟩
            · exact hsub x hx

/-- The ids from a message up to its root. -/
inductive Upward (messages : Messages) : PyStr → List PyStr → Prop
  | root {x : PyStr} (hx : x ∈ messages.keys) (hp : ∀ p, ¬ IsParent messages x p) : Upward messages x [x]
  | step {x p : PyStr} {ids : List PyStr} (hp : IsParent messages x p) (h : Upward messages p ids) :
      Upward messages x (x :: ids)

/-- Every parent that is named is there. -/
def Closed (messages : Messages) : Prop := ∀ x p, IsParent messages x p → p ≠ [] ∧ p ∈ messages.keys

/-- Where every named parent is there the way up ends at a root. -/
theorem messageChain_upward (hacyclic : Acyclic (IsParent messages))
    (hclosed : Closed messages) {n : ℕ} {visited : List PyStr} {x : PyStr} (hx : x ∈ messages.keys)
    (hvisited : visited.Nodup) (hup : ∀ y ∈ visited, y ∈ messages.keys ∧ TransGen (IsParent messages) y x)
    (hn : messages.keys.length ≤ n + visited.length) :
    ∃ ids, Upward messages x ids ∧
      List.Forall₂ (fun id m ↦ messages.get? id = some m) ids (messageChain messages n visited x) := by
  have hfresh : x ∉ visited := fun hin ↦ hacyclic x (hup x hin).2
  induction n generalizing visited x with
  | zero =>
    have hlt := length_lt_of_fresh hvisited (fun y hy ↦ (hup y hy).1) hx hfresh
    omega
  | succ n ih =>
    obtain ⟨m, hm⟩ := Keyed.mem_keys.mp hx
    rw [messageChain]
    simp only [hm, if_neg hfresh]
    rcases hp : m.parentId with _ | p
    · refine ⟨[x], .root hx fun p hparent ↦ ?_, .cons hm .nil⟩
      obtain ⟨m', hm', hp'⟩ := hparent
      obtain rfl := Option.some.inj (hm.symm.trans hm')
      cases hp.symm.trans hp'
    · have hparent : IsParent messages x p := ⟨m, hm, hp⟩
      obtain ⟨hne, hmem⟩ := hclosed x p hparent
      have hup' : ∀ y ∈ x :: visited, y ∈ messages.keys ∧ TransGen (IsParent messages) y p := by
        intro y hy
        rcases List.mem_cons.mp hy with rfl | hy
        · exact ⟨hx, .single hparent⟩
        · exact ⟨(hup y hy).1, (hup y hy).2.tail hparent⟩
      obtain ⟨ids, hids, hchain⟩ := ih hmem (List.nodup_cons.mpr ⟨hfresh, hvisited⟩) hup' (by simp; omega)
        fun hin ↦ hacyclic p (hup' p hin).2
      refine ⟨x :: ids, .step hparent hids, ?_⟩
      simp only [if_neg hne]
      exact .cons hm hchain

theorem Upward.root_last {x : PyStr} {ids : List PyStr} {list : List Message} (h : Upward messages x ids)
    (hlist : List.Forall₂ (fun id m ↦ messages.get? id = some m) ids list) :
    ∃ below root, list = below ++ [root] ∧ root.parentId = none := by
  induction h generalizing list with
  | root hx hp =>
    obtain ⟨m, _, hm, hnil, rfl⟩ := List.forall₂_cons_left_iff.mp hlist
    obtain rfl := List.forall₂_nil_left_iff.mp hnil
    refine ⟨[], m, rfl, ?_⟩
    rcases hparent : m.parentId with _ | p
    · rfl
    · exact absurd ⟨m, hm, hparent⟩ (hp p)
  | step hp _ ih =>
    obtain ⟨m, rest, -, hrest, rfl⟩ := List.forall₂_cons_left_iff.mp hlist
    obtain ⟨below, root, rfl, hroot⟩ := ih hrest
    exact ⟨m :: below, root, rfl, hroot⟩

/-- The way up ends at a message without a parent. -/
theorem messageChain_root (h : Linked messages) (hempty : ∀ x, ¬ IsParent messages x []) {n : ℕ}
    {visited : List PyStr} {id : PyStr} (hid : id ∈ messages.keys) (hvisited : visited.Nodup)
    (hup : ∀ x ∈ visited, x ∈ messages.keys ∧ TransGen (IsParent messages) x id)
    (hn : messages.keys.length ≤ n + visited.length) :
    ∃ below root, messageChain messages n visited id = below ++ [root] ∧ root.parentId = none := by
  have hclosed : Closed messages := fun x p hp ↦ ⟨fun he ↦ hempty x (he ▸ hp), h.parent_mem hp⟩
  obtain ⟨ids, hids, hlist⟩ := messageChain_upward h.acyclic hclosed hid hvisited hup hn
  exact hids.root_last hlist

/-- The messages up to one start at a root and end with it; up to none there are none. -/
def FromRoot (messages : Messages) (id : PyStr) : Prop :=
  (id ∉ messages.keys → getMessageList messages id = []) ∧
    ∀ m, messages.get? id = some m → ∃ root, root.parentId = none ∧
      (getMessageList messages id).head? = some root ∧ (getMessageList messages id).getLast? = some m

theorem messageChain_head {n : ℕ} {id : PyStr} {m : Message} (hm : messages.get? id = some m)
    (hn : n ≠ 0) : (messageChain messages n [] id).head? = some m := by
  obtain ⟨n, rfl⟩ := Nat.exists_eq_succ_of_ne_zero hn
  rw [messageChain]
  simp only [hm, if_neg List.not_mem_nil]
  rfl

theorem getMessageList_fromRoot (h : Linked messages) (hempty : ∀ x, ¬ IsParent messages x [])
    (id : PyStr) : FromRoot messages id := by
  unfold FromRoot getMessageList
  refine ⟨fun hid ↦ ?_, fun m hm ↦ ?_⟩
  · cases messages.entries.length with
    | zero => rfl
    | succ n => simp only [messageChain, Keyed.get?_eq_none.mpr hid, List.reverse_nil]
  · have hid : id ∈ messages.keys := Keyed.mem_keys.mpr ⟨m, hm⟩
    have hn : messages.entries.length ≠ 0 := by
      rw [length_entries]
      exact Nat.ne_of_gt (List.length_pos_of_mem hid)
    obtain ⟨below, root, hchain, hroot⟩ := messageChain_root h hempty hid List.nodup_nil
      (by simp) (n := messages.entries.length) (by simp [length_entries])
    refine ⟨root, hroot, ?_, ?_⟩
    · rw [hchain, List.reverse_append]
      rfl
    · rw [List.getLast?_reverse]
      exact messageChain_head hm hn

theorem lastChild_nil (messages : Messages) (n : ℕ) (visited : List PyStr) (current : Option PyStr) :
    lastChild messages n visited current [] = current := by
  cases n with
  | zero => rfl
  | succ n => rfl

/-- One step more than there are messages, for an id that is no message's. -/
theorem lastChild_stop {n : ℕ} {visited : List PyStr} {current : Option PyStr} {ids : List PyStr}
    (hvisited : visited.Nodup) (hsub : ∀ x ∈ visited, x ∈ messages.keys)
    (hn : messages.keys.length + 1 ≤ n + visited.length) :
    lastChild messages (n + 1) visited current ids = lastChild messages n visited current ids := by
  induction n generalizing visited current ids with
  | zero =>
    have hle := (hvisited.subperm fun x hx ↦ hsub x hx).length_le
    omega
  | succ n ih =>
    rw [lastChild, lastChild]
    split
    · rfl
    · next id hid =>
      by_cases hseen : id ∈ visited
      · rw [if_pos hseen, if_pos hseen]
      · rw [if_neg hseen, if_neg hseen]
        by_cases hkey : id ∈ messages.keys
        · refine ih (List.nodup_cons.mpr ⟨hseen, hvisited⟩) (fun x hx ↦ ?_) (by simp; omega)
          rcases List.mem_cons.mp hx with rfl | hx
          · exact hkey
          · exact hsub x hx
        · rw [childrenOf_of_notMem hkey, lastChild_nil, lastChild_nil]

theorem latestLeaf_mem {id : PyStr} (h : latestLeaf messages = some id) : id ∈ messages.keys := by
  have hfold : ∀ (es : List (PyStr × Message)) (latest : Option PyStr × ℤ),
      (∀ e ∈ es, e.1 ∈ messages.keys) → (∀ x, latest.1 = some x → x ∈ messages.keys) →
      ∀ x, (es.foldl (fun (latest : Option PyStr × ℤ) e ↦
        if truthy e.2.role ∧ e.2.childrenIds = [] ∧ latest.2 < e.2.timestamp
        then (some e.1, (e.2.timestamp : ℤ)) else latest) latest).1 = some x → x ∈ messages.keys := by
    intro es
    induction es with
    | nil => exact fun latest _ hlatest ↦ hlatest
    | cons e es ih =>
      intro latest hes hlatest
      refine ih _ (fun e' he' ↦ hes e' (List.mem_cons_of_mem _ he')) fun x hx ↦ ?_
      beta_reduce at hx
      by_cases hleaf : truthy e.2.role ∧ e.2.childrenIds = [] ∧ latest.2 < e.2.timestamp
      · rw [if_pos hleaf] at hx
        cases hx
        exact hes e List.mem_cons_self
      · rw [if_neg hleaf] at hx
        exact hlatest x hx
  exact hfold messages.entries (none, -1) (fun e he ↦ List.mem_map_of_mem he) (by simp) id h

/-! ## Each operation -/

/-- A well-formed history in which no message is under the empty id. -/
structure Tree (h : History) : Prop where
  wellFormed : WellFormed h
  nonempty : ∀ id, ¬ IsParent h.messages id []

theorem Tree.linked {h : History} (ht : Tree h) : Linked h.messages :=
  ((wellFormed_iff h).mp ht.wellFormed).1

theorem Tree.current {h : History} (ht : Tree h) {id : PyStr} (hid : h.currentId = some id) :
    id ∈ h.messages.keys := ht.wellFormed.current id hid

theorem tree_iff (h : History) : Tree h ↔ Linked h.messages ∧
    (∀ id, h.currentId = some id → id ∈ h.messages.keys) ∧ ∀ id, ¬ IsParent h.messages id [] := by
  constructor
  · exact fun ht ↦ ⟨ht.linked, fun id ↦ ht.current, ht.nonempty⟩
  · exact fun ht ↦ ⟨(wellFormed_iff h).mpr ⟨ht.1, ht.2.1⟩, ht.2.2⟩

section Operations

variable {h : History} (ht : Tree h)

include ht

theorem tree_upsert_new {id : PyStr} {message : Payload} (hinsert : Insertable h.messages id message)
    (now : ℕ) : Tree (upsertMessageToHistory h id message now).1 := by
  refine (tree_iff _).mpr ⟨linked_upsert_new ht.linked hinsert h.currentId now, fun x hx ↦ ?_,
    fun x hx ↦ ?_⟩
  · have hcurrent : x = id := by
      have hnew := upsert_new ht.linked hinsert h.currentId now
      have hid : some id = some x := (congrArg History.currentId hnew).symm.trans hx
      exact (Option.some.inj hid).symm
    have hkeys := keys_upsert_new ht.linked hinsert h.currentId now
    rw [hcurrent]
    exact hkeys ▸ List.mem_append_right _ (List.mem_singleton_self id)
  · rcases (isParent_upsert_new ht.linked hinsert h.currentId now x []).mp hx with hold | ⟨-, hp⟩
    · exact ht.nonempty x hold
    · exact (hinsert.2.2 [] hp).2 rfl

theorem tree_upsert_old {id : PyStr} {message : Payload} (hupdate : Updatable h.messages id message)
    (now : ℕ) : Tree (upsertMessageToHistory h id message now).1 := by
  obtain ⟨hid, hparent, hchildren⟩ := hupdate
  obtain ⟨old, hold⟩ := Keyed.mem_keys.mp hid
  obtain ⟨heq, hlinked⟩ := upsert_old_links ht.linked hold hparent hchildren h.currentId now
  have hkeys : (h.messages.set id (old.update message)).keys = h.messages.keys := by
    rw [Keyed.keys_set, if_pos hid]
  have hresult : (upsertMessageToHistory h id message now).1 = _ := heq
  rw [hresult]
  refine (tree_iff _).mpr ⟨hlinked, fun x hx ↦ ?_, fun x hx ↦ ?_⟩
  · show x ∈ (h.messages.set id (old.update message)).keys
    rw [hkeys]
    exact ht.current hx
  · rw [isParent_set] at hx
    split_ifs at hx with hxid
    · refine ht.nonempty id ⟨old, hold, ?_⟩
      unfold Message.update at hx
      rwa [hparent] at hx
    · exact ht.nonempty x hx

theorem tree_delete (id : PyStr) : Tree (deleteMessageFromHistory h id).1 := by
  unfold deleteMessageFromHistory
  rcases hm : h.messages.get? id with _ | m
  · exact ht
  · refine (tree_iff _).mpr ⟨linked_takeOut ht.linked hm, fun x hx ↦ ?_, fun x hx ↦ ?_⟩
    · exact of_decide_eq_true (Option.filter_eq_some_iff.mp hx).2
    · rcases ((ht.linked.isParent_takeOut m.parentId x []).mp hx).2 with ⟨-, hp⟩ | ⟨-, hold⟩
      · exact ht.nonempty id ⟨m, hm, hp⟩
      · exact ht.nonempty x hold

theorem tree_merge {incoming : History} (ht' : Tree incoming) : Tree (mergeHistory h incoming) := by
  refine (tree_iff _).mpr ⟨linked_merge ht.linked ht'.linked, fun x hx ↦ ?_, fun x hx ↦ ?_⟩
  · rcases Option.or_eq_some_iff.mp hx with hin | ⟨-, hex⟩
    · exact of_decide_eq_true (Option.filter_eq_some_iff.mp hin).2
    · exact of_decide_eq_true (Option.filter_eq_some_iff.mp hex).2
  · have hx' : IsParent (overlaid h.messages incoming.messages) x [] :=
      (isParent_linkChildren _ x []).mp hx
    rcases (isParent_overlaid _ _ x []).mp hx' with ⟨-, hin⟩ | ⟨-, hex⟩
    · exact ht'.nonempty x hin
    · exact ht.nonempty x hex

theorem tree_repair : Tree (repairChatCurrentId h).1 := by
  unfold repairChatCurrentId
  rw [addChildIds_linked ht.linked]
  have hcurrent : ∀ id, (∀ x, id = some x → x ∈ h.messages.keys) → Tree ⟨h.messages, id⟩ :=
    fun id hid ↦ (tree_iff _).mpr ⟨ht.linked, hid, ht.nonempty⟩
  have hsame : ∀ x, h.currentId = some x → x ∈ h.messages.keys := fun x ↦ ht.current
  dsimp only
  split
  · next current_id message hid hsound =>
    split_ifs
    · refine hcurrent _ fun x hx ↦ ?_
      cases hx
      exact lastDescendantId_mem (hsame current_id hid)
    · refine hcurrent _ fun x hx ↦ ?_
      cases hx
      exact hsame current_id hid
  · split_ifs
    · exact hcurrent _ hsame
    · exact hcurrent _ fun x hx ↦ latestLeaf_mem hx

end Operations

/-! ## What a delete and a merge hold -/

/-- A message but for its links. -/
def Message.body (message : Message) : Message := { message with parentId := none, childrenIds := [] }

/-- Exactly the message and its children are deleted; every other message is what it was but for its
links. -/
def DeletesExactly (h : History) (id : PyStr) : Prop :=
  (deleteMessageFromHistory h id).2 =
      (if id ∈ h.messages.keys then insert id (childrenOf h.messages id).toFinset else ∅) ∧
    ∀ x, ((deleteMessageFromHistory h id).1.messages.get? x).map Message.body =
      if x ∈ (deleteMessageFromHistory h id).2 then none
      else (h.messages.get? x).map Message.body

theorem delete_exact {h : History} (ht : Tree h) (id : PyStr) : DeletesExactly h id := by
  unfold DeletesExactly deleteMessageFromHistory
  rcases hm : h.messages.get? id with _ | m
  · rw [if_neg (Keyed.get?_eq_none.mp hm)]
    exact ⟨rfl, fun x ↦ (if_neg (Finset.notMem_empty x)).symm⟩
  · rw [if_pos (Keyed.mem_keys.mpr ⟨m, hm⟩), ← ht.linked.childIds_eq]
    refine ⟨rfl, fun x ↦ ?_⟩
    have hmem : x ∈ insert id (childIds h.messages id).toFinset ↔ x ∈ id :: childIds h.messages id := by
      rw [Finset.mem_insert, List.mem_toFinset, List.mem_cons]
    show ((takeOut h.messages id m.parentId).get? x).map _ = if x ∈ insert id _ then _ else _
    rw [get?_takeOut]
    by_cases hx : x ∈ id :: childIds h.messages id
    · rw [if_pos hx, if_pos (hmem.mpr hx)]
      rfl
    · rw [if_neg hx, if_neg fun hin ↦ hx (hmem.mp hin), Option.map_map]
      rfl

theorem mem_merge (existing incoming : History) (x : PyStr) :
    x ∈ (mergeHistory existing incoming).messages.keys ↔
      x ∈ existing.messages.keys ∨ x ∈ incoming.messages.keys :=
  (mem_linkChildren _ x).trans mem_overlaid

/-! ## Sequences of operations -/

inductive Op
  | upsert (message_id : PyStr) (message : Payload) (now : ℕ)
  | delete (message_id : PyStr)
  | repair
  | merge (incoming : History)

def apply (h : History) : Op → History
  | .upsert message_id message now => (upsertMessageToHistory h message_id message now).1
  | .delete message_id => (deleteMessageFromHistory h message_id).1
  | .repair => (repairChatCurrentId h).1
  | .merge incoming => mergeHistory h incoming

/-- A new message under one that is there or under none, an update that leaves the links alone, and a
history that is a tree itself. -/
def Allowed (h : History) : Op → Prop
  | .upsert message_id message _ =>
    Insertable h.messages message_id message ∨ Updatable h.messages message_id message
  | .merge incoming => Tree incoming
  | _ => True

def AllAllowed : History → List Op → Prop
  | _, [] => True
  | h, op :: ops => Allowed h op ∧ AllAllowed (apply h op) ops

theorem tree_apply {h : History} (ht : Tree h) {op : Op} (hop : Allowed h op) : Tree (apply h op) := by
  cases op with
  | upsert message_id message now =>
    rcases hop with hinsert | hupdate
    · exact tree_upsert_new ht hinsert now
    · exact tree_upsert_old ht hupdate now
  | delete message_id => exact tree_delete ht message_id
  | repair => exact tree_repair ht
  | merge incoming => exact tree_merge ht hop

def applyAll (h : History) (ops : List Op) : History := ops.foldl apply h

theorem tree_applyAll {h : History} (ht : Tree h) {ops : List Op} (hops : AllAllowed h ops) :
    Tree (applyAll h ops) := by
  induction ops generalizing h with
  | nil => exact ht
  | cons op ops ih => exact ih (tree_apply ht hops.1) hops.2

/-- After every sequence of operations the history is a tree; a merge then holds the ids of both sides,
a delete takes out the message and its children and no other, and the messages up to any message start
at a root. -/
theorem stays_tree {h : History} (ht : Tree h) (ops : List Op) (hops : AllAllowed h ops) :
    Tree (applyAll h ops) ∧
      (∀ incoming x, x ∈ (mergeHistory (applyAll h ops) incoming).messages.keys ↔
        x ∈ (applyAll h ops).messages.keys ∨ x ∈ incoming.messages.keys) ∧
      (∀ id, DeletesExactly (applyAll h ops) id) ∧
      ∀ id, FromRoot (applyAll h ops).messages id := by
  have ht' := tree_applyAll ht hops
  exact ⟨ht', mem_merge _, delete_exact ht', getMessageList_fromRoot ht'.linked ht'.nonempty⟩

/-- A user's message under the parent. -/
def under (parent : Option PyStr) : Payload :=
  ⟨none, some parent, none, some (some (py "user")), none, none, none, none⟩

def noMessages : History := ⟨⟨[], List.nodup_nil⟩, none⟩

theorem tree_noMessages : Tree noMessages := by
  have hnone : ∀ id p, ¬ IsParent noMessages.messages id p := fun id p ⟨m, hm, _⟩ ↦ by cases hm
  refine (tree_iff _).mpr ⟨⟨fun p ↦ List.nodup_nil, fun id p ↦ ?_, fun id hcycle ↦ ?_⟩, by simp [noMessages],
    fun id ↦ hnone id []⟩
  · exact iff_of_false (fun hid ↦ by cases hid) (hnone id p)
  · obtain ⟨p, hp, -⟩ := TransGen.head'_iff.mp hcycle
    exact hnone id p hp

/-- A message, one under it, and the first one deleted. -/
def twoMessages : List Op :=
  [.upsert (py "a") (under none) 1, .upsert (py "b") (under (some (py "a"))) 2, .delete (py "a"), .repair]

theorem twoMessages_allowed : AllAllowed noMessages twoMessages := by
  refine ⟨Or.inl ⟨by decide, rfl, fun p hp ↦ by cases hp⟩,
    Or.inl ⟨by decide, rfl, fun p hp ↦ ?_⟩, trivial, trivial, trivial⟩
  cases hp
  exact ⟨by decide, by decide⟩

theorem stays_tree_twoMessages :
    Tree (applyAll noMessages twoMessages) ∧
      (∀ incoming x, x ∈ (mergeHistory (applyAll noMessages twoMessages) incoming).messages.keys ↔
        x ∈ (applyAll noMessages twoMessages).messages.keys ∨ x ∈ incoming.messages.keys) ∧
      (∀ id, DeletesExactly (applyAll noMessages twoMessages) id) ∧
      ∀ id, FromRoot (applyAll noMessages twoMessages).messages id :=
  stays_tree tree_noMessages twoMessages twoMessages_allowed

/-! ### The empty id -/

def plain (parent : Option PyStr) : Message := ⟨none, parent, [], some (py "user"), 1, false, false, []⟩

def unlinked : Messages := ⟨[([], plain none), (py "a", plain (some []))], by decide⟩

/-- A message with the empty id and one under it. -/
def emptyRoot : History := ⟨linkChildren unlinked, none⟩

theorem isParent_unlinked {x p : PyStr} (h : IsParent unlinked x p) : x = py "a" ∧ p = [] := by
  obtain ⟨m, hm, hp⟩ := h
  rcases List.mem_cons.mp (Keyed.get?_eq_some_iff.mp hm) with he | he
  · cases he
    cases hp
  · cases List.mem_singleton.mp he
    cases hp
    exact ⟨rfl, rfl⟩

theorem wellFormed_emptyRoot : WellFormed emptyRoot := by
  refine (wellFormed_iff _).mpr ⟨linked_linkChildren (fun p ↦ ?_) (fun x p hp ↦ ?_) ?_, by simp [emptyRoot]⟩
  · unfold childrenOf
    rcases hm : unlinked.get? p with _ | m
    · rfl
    · rcases List.mem_cons.mp (Keyed.get?_eq_some_iff.mp hm) with he | he
      · cases he
        rfl
      · cases List.mem_singleton.mp he
        rfl
  · rw [(isParent_unlinked hp).2]
    decide
  · have hnone : Acyclic fun _ _ : PyStr ↦ False := fun x hx ↦ by
      obtain ⟨_, hfalse, -⟩ := TransGen.head'_iff.mp hx
      exact hfalse
    have hne : ([] : PyStr) ≠ py "a" := by decide
    exact (hnone.leaf (fun _ ↦ id) hne).shorten fun x p hp ↦ .single (Or.inr (isParent_unlinked hp))

/-- A parent with the empty id is taken for none: the way up ends below it, and a new message under it
is not listed. -/
theorem emptyRoot_fails :
    WellFormed emptyRoot ∧ ¬ FromRoot emptyRoot.messages (py "a") ∧
      ¬ WellFormed (upsertMessageToHistory emptyRoot (py "b") (under (some [])) 2).1 := by
  refine ⟨wellFormed_emptyRoot, fun hroots ↦ ?_, fun hwf ↦ ?_⟩
  · obtain ⟨m, hm⟩ := Keyed.mem_keys.mp (show py "a" ∈ emptyRoot.messages.keys by decide)
    obtain ⟨root, hroot, hhead, -⟩ := hroots.2 m hm
    have hparent : (getMessageList emptyRoot.messages (py "a")).head?.bind Message.parentId =
        some [] := by decide
    rw [hhead, Option.bind_some, hroot] at hparent
    cases hparent
  · set after := (upsertMessageToHistory emptyRoot (py "b") (under (some [])) 2).1 with hafter
    have hparent : (after.messages.get? (py "b")).bind Message.parentId = some [] := by
      rw [hafter]
      decide
    have hcount : (childrenOf after.messages []).count (py "b") = 0 := by
      rw [hafter]
      decide
    have honce := hwf.once (py "b") [] (Option.bind_eq_some_iff.mp hparent)
    omega

end FourCE.Chats

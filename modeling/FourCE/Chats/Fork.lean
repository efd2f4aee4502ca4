import FourCE.Library.Acyclic
import FourCE.Library.Keyed
import FourCE.Python.Str

/-!
# Forks of a conversation

`build_fork_history` of `utils/chat_fork.py`, which copies the branch above a message, and the walk of
`get_message_list` of `utils/misc.py`.  Messages are objects of a heap that dictionaries refer to, so what a
copy shares with the chat is seen there.  A walk gets a number of steps and has no result where they do not
suffice.
-/

namespace FourCE.Chats.Fork

open FourCE.Library FourCE.Python Relation

/-- A dictionary of a message: the keys that a fork sets, where they are there, and the others. -/
structure Message (V : Type) where
  id : Option PyStr
  parentId : Option (Option PyStr)
  childrenIds : Option (List PyStr)
  others : Keyed PyStr V

/-- `not message` -/
def Message.isEmpty {V : Type} (m : Message V) : Bool :=
  m.id.isNone && m.parentId.isNone && m.childrenIds.isNone && m.others.keys.isEmpty

/-- `message.get('parentId')`, where it counts as true. -/
def Message.target {V : Type} (m : Message V) : Option PyStr := m.parentId.join.filter (· ≠ [])

/-- What is under an id: a dictionary of the heap, or something else that counts as true or false. -/
inductive Entry where
  | message (ref : ℕ)
  | other (truth : Bool)

def Entry.ref? : Entry → Option ℕ
  | .message r => some r
  | .other _ => none

/-- The messages of a chat. -/
structure Chat (V : Type) where
  heap : List (Message V)
  messagesMap : Keyed PyStr Entry
  valid : ∀ id r, messagesMap.get? id = some (.message r) → r < heap.length

variable {V : Type}

namespace Chat

variable (c : Chat V)

/-- The dictionary under an id. -/
def ref (id : PyStr) : Option ℕ := (c.messagesMap.get? id).bind Entry.ref?

def message (id : PyStr) : Option (Message V) := (c.ref id).bind (c.heap[·]?)

/-- The loop of `build_fork_history` up the parents. -/
def collect : ℕ → Option PyStr → List PyStr → Option (Except PyStr (List (PyStr × ℕ)))
  | 0, _, _ => none
  | _ + 1, none, _ => some (.ok [])
  | n + 1, some message_id, seen =>
    if message_id ∈ seen then some (.error (py "message branch contains a cycle"))
    else match c.ref message_id with
      | none => some (.error (py "message not found"))
      | some r =>
        (collect n (c.heap[r]?.bind Message.target) (message_id :: seen)).map (·.map ((message_id, r) :: ·))

end Chat

/-- What the loop over the branch changes. -/
structure Relinked (V : Type) where
  heap : List (Message V)
  forkMessages : Keyed PyStr ℕ
  orderedMessages : List ℕ
  parentId : Option PyStr

/-- A copy of one message, which the copy of its parent names as its child. -/
def relink (s : Relinked V) (entry : PyStr × ℕ) : Relinked V :=
  match s.heap[entry.2]? with
  | none => s
  | some message =>
    let copied := { message with id := some entry.1, parentId := some s.parentId, childrenIds := some [] }
    let heap := s.heap ++ [copied]
    let heap := match (s.parentId.filter (· ≠ [])).bind s.forkMessages.get? with
      | none => heap
      | some parent => heap.modify parent fun m ↦ { m with childrenIds := some [entry.1] }
    ⟨heap, s.forkMessages.set entry.1 s.heap.length, s.orderedMessages ++ [s.heap.length], some entry.1⟩

/-- What `build_fork_history` returns, with the heap that it leaves. -/
structure Fork (V : Type) where
  messages : Keyed PyStr ℕ
  currentId : PyStr
  orderedMessages : List ℕ
  heap : List (Message V)

/-- `build_fork_history(messages_map, source_message_id)`; an error is a `ValueError` with its text. -/
def buildForkHistory (c : Chat V) (source_message_id : PyStr) (n : ℕ) : Option (Except PyStr (Fork V)) :=
  if c.messagesMap.keys.isEmpty then some (.error (py "chat has no messages to fork"))
  else (c.collect n (some source_message_id |>.filter (· ≠ [])) []).map (·.map fun branch ↦
    let s := branch.reverse.foldl relink ⟨c.heap, .empty, [], none⟩
    ⟨s.forkMessages, source_message_id, s.orderedMessages, s.heap⟩)

/-! ## The other walk -/

namespace Chat

variable (c : Chat V)

/-- What is under an id, where it counts as true. -/
def current (id : PyStr) : Option Entry :=
  (c.messagesMap.get? id).filter fun
    | .message r => (c.heap[r]?).any (!·.isEmpty)
    | .other truth => truth

/-- The loop of `get_message_list`, from a message on; what is no dictionary has no parent to ask for. -/
def listFrom : ℕ → PyStr → List PyStr → Option (Except Unit (List ℕ))
  | 0, _, _ => none
  | n + 1, message_id, visited =>
    match c.current message_id with
    | none => some (.ok [])
    | some (.other _) => if message_id ∈ visited then some (.ok []) else some (.error ())
    | some (.message r) =>
      if message_id ∈ visited then some (.ok [])
      else match c.heap[r]?.bind Message.target with
        | none => some (.ok [r])
        | some parent => (listFrom n parent (message_id :: visited)).map (·.map (r :: ·))

/-- `get_message_list(messages_map, message_id)`; an error is an `AttributeError`. -/
def getMessageList (message_id : PyStr) (n : ℕ) : Option (Except Unit (List ℕ)) :=
  if c.messagesMap.keys.isEmpty then some (.ok [])
  else (c.listFrom n message_id []).map (·.map List.reverse)

/-! ## The branch -/

/-- One step up. -/
def IsAbove (x y : PyStr) : Prop := ∃ m, c.message x = some m ∧ m.target = some y

/-- The way up from a link to a message without a parent. -/
def Walks : Option PyStr → List (PyStr × Message V) → Prop
  | link, [] => link = none
  | link, (id, m) :: branch => link = some id ∧ c.message id = some m ∧ Walks m.target branch

/-- From the id a message that is not there, or one that comes again, is met. -/
def Breaks (id : PyStr) : Prop := (∃ y, ReflTransGen c.IsAbove id y ∧ c.message y = none) ∨ Looping c.IsAbove id

end Chat

/-- The copies of a branch, linked from its root on. -/
def linked : Option PyStr → List (PyStr × Message V) → List (Message V)
  | _, [] => []
  | parent, (id, m) :: branch =>
    { m with id := some id, parentId := some parent, childrenIds := some (branch.head?.map Prod.fst).toList } ::
      linked (some id) branch

variable {c : Chat V}

theorem Chat.ref_eq_some {id : PyStr} {r : ℕ} : c.ref id = some r ↔ c.messagesMap.get? id = some (.message r) := by
  unfold ref
  constructor
  · intro h
    obtain ⟨e, he, hr⟩ := Option.bind_eq_some_iff.mp h
    cases e with
    | message r' =>
      obtain rfl := Option.some.inj hr
      exact he
    | other _ => cases hr
  · intro h
    rw [h]
    rfl

theorem Chat.mem_keys_of_ref {id : PyStr} {r : ℕ} (h : c.ref id = some r) : id ∈ c.messagesMap.keys :=
  Keyed.mem_keys.mpr ⟨_, ref_eq_some.mp h⟩

theorem Chat.message_of_ref {id : PyStr} {r : ℕ} (h : c.ref id = some r) :
    ∃ m, c.heap[r]? = some m ∧ c.message id = some m := by
  have hr := c.valid id r (ref_eq_some.mp h)
  refine ⟨c.heap[r], List.getElem?_eq_getElem hr, ?_⟩
  rw [message, h, Option.bind_some, List.getElem?_eq_getElem hr]

theorem Chat.message_eq_none {id : PyStr} : c.message id = none ↔ c.ref id = none := by
  constructor
  · intro h
    rcases hr : c.ref id with - | r
    · rfl
    · obtain ⟨m, -, hm⟩ := message_of_ref hr
      rw [h] at hm
      cases hm
  · intro h
    rw [message, h]
    rfl

theorem Chat.Breaks.of_step {x y : PyStr} (hxy : c.IsAbove x y) (h : c.Breaks y) : c.Breaks x := by
  rcases h with ⟨z, hyz, hz⟩ | hloop
  · exact .inl ⟨z, .head hxy hyz, hz⟩
  · exact .inr (hloop.of_step hxy)

/-- The way up from a message that is there ends or breaks with that from its parent. -/
theorem Chat.walks_not_breaks {link : Option PyStr} {branch : List (PyStr × Message V)} (h : c.Walks link branch)
    {id : PyStr} (hid : link = some id) : ¬ c.Breaks id := by
  induction branch generalizing link id with
  | nil => exact absurd (h.symm.trans hid) nofun
  | cons e branch ih =>
    obtain ⟨hlink, hm, hrest⟩ := h
    obtain rfl : e.1 = id := Option.some.inj (hlink.symm.trans hid)
    have hstep {y : PyStr} (hy : c.IsAbove e.1 y) : e.2.target = some y := by
      obtain ⟨m, hm', hy⟩ := hy
      obtain rfl := Option.some.inj (hm.symm.trans hm')
      exact hy
    rintro (⟨y, hreach, hy⟩ | hloop)
    · rcases ReflTransGen.cases_head hreach with rfl | ⟨p, hp, hpy⟩
      · rw [hm] at hy
        cases hy
      · exact ih hrest (hstep hp) (.inl ⟨y, hpy, hy⟩)
    · obtain ⟨p, hp, hloop'⟩ := hloop.exists_step
      exact ih hrest (hstep hp) (.inr hloop')

/-- A message on the way, with the object that it is. -/
structure Found (V : Type) where
  id : PyStr
  ref : ℕ
  message : Message V

def Found.entry (b : Found V) : PyStr × ℕ := (b.id, b.ref)

def Found.named (b : Found V) : PyStr × Message V := (b.id, b.message)

/-- The messages on the way up from a link, each once. -/
structure Chat.Way (c : Chat V) (link : Option PyStr) (way : List (Found V)) : Prop where
  walks : c.Walks link (way.map Found.named)
  ref : ∀ b ∈ way, c.ref b.id = some b.ref
  heap : ∀ b ∈ way, c.heap[b.ref]? = some b.message
  nodup : (way.map Found.id).Nodup

/-- The loop returns the way up, or it breaks or leads to what was seen. -/
theorem Chat.collect_spec {n : ℕ} {link : Option PyStr} {seen : List PyStr} (hnodup : seen.Nodup)
    (hseen : ∀ x ∈ seen, x ∈ c.messagesMap.keys) (hn : c.messagesMap.keys.length < n + seen.length) :
    (∃ way, c.collect n link seen = some (.ok (way.map Found.entry)) ∧ c.Way link way ∧ ∀ b ∈ way, b.id ∉ seen) ∨
    ∃ text id, c.collect n link seen = some (.error text) ∧ link = some id ∧
      (c.Breaks id ∨ ∃ y ∈ seen, ReflTransGen c.IsAbove id y) := by
  induction n generalizing link seen with
  | zero =>
    have hle := (hnodup.subperm hseen).length_le
    omega
  | succ n ih =>
    rcases link with - | id
    · exact .inl ⟨[], rfl, ⟨rfl, List.forall_mem_nil _, List.forall_mem_nil _, List.nodup_nil⟩, List.forall_mem_nil _⟩
    · rw [collect]
      by_cases hid : id ∈ seen
      · rw [if_pos hid]
        exact .inr ⟨_, id, rfl, rfl, .inr ⟨id, hid, .refl⟩⟩
      · rw [if_neg hid]
        rcases hr : c.ref id with - | r
        · exact .inr ⟨_, id, rfl, rfl, .inl (.inl ⟨id, .refl, message_eq_none.mpr hr⟩)⟩
        · obtain ⟨m, hheap, hm⟩ := message_of_ref hr
          have hseen' : ∀ x ∈ id :: seen, x ∈ c.messagesMap.keys :=
            List.forall_mem_cons.mpr ⟨mem_keys_of_ref hr, hseen⟩
          simp only [hheap, Option.bind_some]
          rcases @ih m.target _ (List.nodup_cons.mpr ⟨hid, hnodup⟩) hseen'
              (by rw [List.length_cons]; omega) with
            ⟨way, hcollect, hway, hfresh⟩ | ⟨text, p, hcollect, hp, hbreaks⟩
          · left
            refine ⟨⟨id, r, m⟩ :: way, ?_, ⟨⟨rfl, hm, hway.walks⟩, List.forall_mem_cons.mpr ⟨hr, hway.ref⟩,
              List.forall_mem_cons.mpr ⟨hheap, hway.heap⟩, List.nodup_cons.mpr ⟨fun hmem ↦ ?_, hway.nodup⟩⟩,
              List.forall_mem_cons.mpr ⟨hid, fun b hb hmem ↦ hfresh b hb (List.mem_cons_of_mem id hmem)⟩⟩
            · rw [hcollect]
              rfl
            · obtain ⟨b, hb, rfl⟩ := List.mem_map.mp hmem
              exact hfresh b hb List.mem_cons_self
          · right
            have hstep : c.IsAbove id p := ⟨m, hm, hp⟩
            refine ⟨text, id, by rw [hcollect]; rfl, rfl, ?_⟩
            rcases hbreaks with hbreaks | ⟨y, hy, hreach⟩
            · exact .inl (hbreaks.of_step hstep)
            · rcases List.mem_cons.mp hy with rfl | hy
              · exact .inl (.inr ⟨y, .refl, .head' hstep hreach⟩)
              · exact .inr ⟨y, hy, .head hstep hreach⟩

/-- `get_message_list` goes the same way, up to a root that holds nothing. -/
theorem Chat.listFrom_of_way {n : ℕ} {id : PyStr} {visited : List PyStr} {way : List (Found V)}
    (hway : c.Way (some id) way) (hvisited : ∀ b ∈ way, b.id ∉ visited) (hn : way.length ≤ n) :
    c.listFrom n id visited = some (.ok ((way.filter fun b ↦ !b.message.isEmpty).map Found.ref)) := by
  induction way generalizing n id visited with
  | nil => cases hway.walks
  | cons b way ih =>
    obtain ⟨hid, -, hrest⟩ := hway.walks
    obtain rfl : id = b.id := Option.some.inj hid
    obtain ⟨n, rfl⟩ : ∃ m, n = m + 1 := ⟨n - 1, by rw [List.length_cons] at hn; omega⟩
    have hheap := hway.heap b List.mem_cons_self
    have hcurrent : c.current b.id = if b.message.isEmpty then none else some (.message b.ref) := by
      rw [current, ref_eq_some.mp (hway.ref b List.mem_cons_self)]
      cases hempty : b.message.isEmpty <;> simp [hheap, hempty]
    have hend (htarget : b.message.target = none) : way = [] := by
      rw [htarget] at hrest
      cases way with
      | nil => rfl
      | cons b' way => cases hrest.1
    rw [listFrom, hcurrent]
    cases hempty : b.message.isEmpty with
    | true =>
      have htarget : b.message.target = none := by
        simp only [Message.isEmpty, Bool.and_eq_true, Option.isNone_iff_eq_none] at hempty
        rw [Message.target, hempty.1.1.2]
        rfl
      simp [hend htarget, hempty]
    | false =>
      simp only [Bool.false_eq_true, if_false, if_neg (hvisited b List.mem_cons_self), hheap, Option.bind_some]
      rcases htarget : b.message.target with - | parent
      · simp [hend htarget, hempty]
      · have hrest' : c.Way (some parent) way := by
          refine ⟨htarget ▸ hrest, fun d hd ↦ hway.ref d (List.mem_cons_of_mem b hd),
            fun d hd ↦ hway.heap d (List.mem_cons_of_mem b hd), ?_⟩
          exact (List.nodup_cons.mp hway.nodup).2
        have hfresh : ∀ d ∈ way, d.id ∉ b.id :: visited := by
          intro d hd hmem
          rcases List.mem_cons.mp hmem with heq | hmem
          · exact (List.nodup_cons.mp hway.nodup).1 (List.mem_map.mpr ⟨d, hd, heq⟩)
          · exact hvisited d (List.mem_cons_of_mem b hd) hmem
        have hmore := ih hrest' hfresh (n := n) (by rw [List.length_cons] at hn; omega)
        have hkept : (b :: way).filter (fun d ↦ !d.message.isEmpty) = b :: way.filter fun d ↦ !d.message.isEmpty :=
          List.filter_cons_of_pos (by rw [hempty]; rfl)
        change Option.map _ (c.listFrom n parent (b.id :: visited)) = _
        rw [hmore, hkept, List.map_cons]
        rfl

/-! ## The copies -/

/-- A copy with its new links. -/
def copyOf (parent : Option PyStr) (e : PyStr × Message V) (child : Option PyStr) : Message V :=
  { e.2 with id := some e.1, parentId := some parent, childrenIds := some child.toList }

/-- One more message changes the children of the last copy alone. -/
theorem linked_concat (parent : Option PyStr) (front : List (PyStr × Message V)) (last : PyStr × Message V) :
    ∃ copies parent', copies.length = front.length ∧
      linked parent (front ++ [last]) = copies ++ [copyOf parent' last none] ∧
      ∀ e, linked parent (front ++ [last] ++ [e]) =
        copies ++ copyOf parent' last (some e.1) :: [copyOf (some last.1) e none] := by
  induction front generalizing parent with
  | nil => exact ⟨[], parent, rfl, rfl, fun e ↦ rfl⟩
  | cons b front ih =>
    obtain ⟨copies, parent', hlength, hlast, hmore⟩ := ih (some b.1)
    refine ⟨copyOf parent b ((front ++ [last]).head?.map Prod.fst) :: copies, parent', congrArg (· + 1) hlength, ?_,
      fun e ↦ ?_⟩
    · rw [List.cons_append, linked, hlast]
      rfl
    · have hhead : (front ++ [last] ++ [e]).head? = (front ++ [last]).head? := by
        rw [List.head?_append_of_ne_nil _ (by simp)]
      rw [List.cons_append, List.cons_append, linked, hmore e, hhead]
      rfl

theorem modify_append_cons {α : Type} (f : α → α) (xs : List α) (x : α) (ys : List α) :
    (xs ++ x :: ys).modify xs.length f = xs ++ f x :: ys := by
  induction xs with
  | nil => exact List.modify_zero_cons f x ys
  | cons a xs ih =>
    rw [List.cons_append, List.length_cons, List.modify_succ_cons, ih]
    rfl

/-- What the loop has built of the messages that it has copied. -/
structure Built (c : Chat V) (way : List (Found V)) (s : Relinked V) : Prop where
  heap : s.heap = c.heap ++ linked none (way.map Found.named)
  ordered : s.orderedMessages = List.range' c.heap.length way.length
  messages : s.forkMessages.entries = (way.map Found.id).zip (List.range' c.heap.length way.length)
  parent : s.parentId = way.getLast?.map Found.id

theorem Built.keys {way : List (Found V)} {s : Relinked V} (h : Built c way s) : s.forkMessages.keys = way.map Found.id := by
  unfold Keyed.keys
  rw [h.messages, List.map_fst_zip]
  rw [List.length_map, List.length_range']

theorem length_linked (parent : Option PyStr) (branch : List (PyStr × Message V)) :
    (linked parent branch).length = branch.length := by
  induction branch generalizing parent with
  | nil => rfl
  | cons e branch ih =>
    obtain ⟨id, m⟩ := e
    rw [linked, List.length_cons, List.length_cons, ih]

/-- One more message is copied, and the copy before it names it as its child. -/
theorem built_relink {way : List (Found V)} {s : Relinked V} (h : Built c way s) {b : Found V}
    (hheap : c.heap[b.ref]? = some b.message) (hids : ∀ d ∈ way, d.id ≠ []) (hfresh : b.id ∉ way.map Found.id) :
    Built c (way ++ [b]) (relink s b.entry) := by
  have hfound : s.heap[b.ref]? = some b.message := by
    rw [h.heap, List.getElem?_append_left (List.getElem?_eq_some_iff.mp hheap).choose, hheap]
  have hlength : s.heap.length = c.heap.length + way.length := by
    rw [h.heap, List.length_append, length_linked, List.length_map]
  have hset : (s.forkMessages.set b.id s.heap.length).entries = s.forkMessages.entries ++ [(b.id, s.heap.length)] := by
    rw [Keyed.set, dif_neg (by rwa [h.keys])]
  have hentries : (s.forkMessages.set b.id s.heap.length).entries =
      ((way ++ [b]).map Found.id).zip (List.range' c.heap.length (way ++ [b]).length) := by
    rw [hset, h.messages, hlength, List.map_append, List.length_append, List.length_singleton, List.range'_1_concat,
      List.zip_append (by rw [List.length_map, List.length_range'])]
    rfl
  have hordered : s.orderedMessages ++ [s.heap.length] = List.range' c.heap.length (way ++ [b]).length := by
    rw [h.ordered, hlength, List.length_append, List.length_singleton, List.range'_1_concat]
  have hlast : (way ++ [b]).getLast?.map Found.id = some b.id := by
    rw [List.getLast?_concat]
    rfl
  unfold relink Found.entry
  simp only [hfound]
  refine ⟨?_, hordered, hentries, hlast.symm⟩
  simp only
  rcases List.eq_nil_or_concat' way with rfl | ⟨front, last, rfl⟩
  · have hnone : s.parentId = none := h.parent
    simp only [hnone, h.heap]
    simp [linked, Found.named]
  · obtain ⟨copies, parent', hcopies, hone, hmore⟩ := linked_concat none (front.map Found.named) last.named
    have hparent : s.parentId = some last.id := by
      rw [h.parent, List.getLast?_concat]
      rfl
    have hwhere : s.forkMessages.get? last.id = some (c.heap.length + front.length) := by
      rw [Keyed.get?_eq_some_iff, h.messages, List.map_append, List.length_append, List.length_singleton,
        List.range'_1_concat, List.zip_append (by rw [List.length_map, List.length_range'])]
      exact List.mem_append_right _ (List.mem_singleton_self _)
    have htrue : last.id ≠ [] := hids last (by simp)
    have hlink : (s.parentId.filter (· ≠ [])).bind s.forkMessages.get? = some (c.heap.length + front.length) := by
      rw [hparent, Option.filter_some, if_pos (by simpa using htrue), Option.bind_some, hwhere]
    have hold : s.heap ++ [copyOf (some last.id) b.named none] =
        (c.heap ++ copies) ++ copyOf parent' last.named none :: [copyOf (some last.id) b.named none] := by
      rw [h.heap, List.map_append, List.map_singleton, hone]
      simp only [List.append_assoc, List.singleton_append]
    have hindex : c.heap.length + front.length = (c.heap ++ copies).length := by
      rw [List.length_append, hcopies, List.length_map]
    simp only [hlink]
    rw [hparent]
    refine (congrArg (fun heap ↦ List.modify heap _ _) hold).trans ?_
    rw [hindex, modify_append_cons, List.append_assoc, List.map_append, List.map_append, List.map_singleton,
      List.map_singleton, hmore b.named]
    rfl

/-- The loop over the branch copies every message of it. -/
theorem built_foldl {front rest : List (Found V)} {s : Relinked V} (h : Built c front s)
    (hheap : ∀ b ∈ rest, c.heap[b.ref]? = some b.message) (hids : ∀ d ∈ front ++ rest, d.id ≠ [])
    (hnodup : ((front ++ rest).map Found.id).Nodup) :
    Built c (front ++ rest) ((rest.map Found.entry).foldl relink s) := by
  induction rest generalizing front s with
  | nil => rwa [List.append_nil]
  | cons b rest ih =>
    obtain ⟨hb, hrest⟩ := List.forall_mem_cons.mp hheap
    have hsplit : front ++ b :: rest = front ++ [b] ++ rest := List.append_cons front b rest
    have hfresh : b.id ∉ front.map Found.id := by
      rw [List.map_append, List.map_cons] at hnodup
      exact fun hmem ↦ (List.disjoint_of_nodup_append hnodup) hmem List.mem_cons_self
    have hstep := built_relink h hb (fun d hd ↦ hids d (List.mem_append_left _ hd)) hfresh
    rw [hsplit] at hids hnodup ⊢
    exact ih hstep hrest hids hnodup

theorem Message.target_ne_nil {m : Message V} {y : PyStr} (h : m.target = some y) : y ≠ [] := by
  simpa using (Option.filter_eq_some_iff.mp h).2

theorem Chat.walks_ids_ne_nil {link : Option PyStr} {branch : List (PyStr × Message V)} (h : c.Walks link branch)
    (hlink : ∀ id, link = some id → id ≠ []) : ∀ e ∈ branch, e.1 ≠ [] := by
  induction branch generalizing link with
  | nil => exact List.forall_mem_nil _
  | cons e branch ih =>
    obtain ⟨hid, -, hrest⟩ := h
    exact List.forall_mem_cons.mpr ⟨hlink e.1 hid, ih hrest fun id hid ↦ Message.target_ne_nil hid⟩

/-- A fork of the branch: its messages from the root on, each the original but for its links. -/
structure IsFork (c : Chat V) (source_message_id : PyStr) (branch : List (PyStr × Message V)) (f : Fork V) : Prop where
  walks : c.Walks (some source_message_id |>.filter (· ≠ [])) branch.reverse
  heap : f.heap = c.heap ++ linked none branch
  ordered : f.orderedMessages = List.range' c.heap.length branch.length
  messages : f.messages.entries = (branch.map Prod.fst).zip f.orderedMessages
  current : f.currentId = source_message_id

/-- The way that the loop found makes the fork. -/
theorem Chat.Way.isFork {source : PyStr} {way : List (Found V)}
    (hway : c.Way (some source |>.filter (· ≠ [])) way) {s : Relinked V}
    (hs : ((way.map Found.entry).reverse).foldl relink ⟨c.heap, .empty, [], none⟩ = s) :
    IsFork c source (way.reverse.map Found.named) ⟨s.forkMessages, source, s.orderedMessages, s.heap⟩ := by
  have hids : ∀ d ∈ way.reverse, d.id ≠ [] := by
    intro d hd
    have hne := walks_ids_ne_nil hway.walks fun id hid ↦ by
      simpa using (Option.filter_eq_some_iff.mp hid).2
    exact hne d.named (List.mem_map_of_mem (List.mem_reverse.mp hd))
  have hnodup : (way.reverse.map Found.id).Nodup := by
    rw [List.map_reverse]
    exact List.nodup_reverse.mpr hway.nodup
  have hstart : Built c [] (⟨c.heap, .empty, [], none⟩ : Relinked V) := ⟨(List.append_nil _).symm, rfl, rfl, rfl⟩
  have hbuilt := built_foldl hstart (fun b hb ↦ hway.heap b (List.mem_reverse.mp hb)) hids hnodup
  rw [List.map_reverse, hs, List.nil_append] at hbuilt
  refine ⟨?_, hbuilt.heap, ?_, ?_, rfl⟩
  · rw [← List.map_reverse, List.reverse_reverse]
    exact hway.walks
  · rw [List.length_map]
    exact hbuilt.ordered
  · rw [List.map_map, hbuilt.ordered]
    exact hbuilt.messages

/-- `build_fork_history` raises where the chat is empty or the walk from the source breaks.  Otherwise its fork is
the branch that the walk finds, and `get_message_list` returns the same messages but for an empty root. -/
theorem buildForkHistory_spec (c : Chat V) (source : PyStr) :
    ((c.messagesMap.keys = [] ∨ source ≠ [] ∧ c.Breaks source) ∧
      ∃ text, buildForkHistory c source (c.messagesMap.keys.length + 1) = some (.error text)) ∨
    (¬ (c.messagesMap.keys = [] ∨ source ≠ [] ∧ c.Breaks source) ∧
      ∃ f branch, buildForkHistory c source (c.messagesMap.keys.length + 1) = some (.ok f) ∧
        IsFork c source branch f ∧
        (source ≠ [] → ∃ refs, c.getMessageList source (c.messagesMap.keys.length + 1) = some (.ok refs) ∧
          refs.map (c.heap[·]?) = ((branch.map Prod.snd).filter (!·.isEmpty)).map some)) := by
  by_cases hempty : c.messagesMap.keys = []
  · left
    refine ⟨.inl hempty, py "chat has no messages to fork", ?_⟩
    rw [buildForkHistory, hempty]
    rfl
  · have hkeys : c.messagesMap.keys.isEmpty = false := by simpa using hempty
    rcases @Chat.collect_spec _ _ _ (some source |>.filter (· ≠ [])) _ List.nodup_nil (List.forall_mem_nil _)
        (Nat.lt_succ_self c.messagesMap.keys.length) with
      ⟨way, hcollect, hway, -⟩ | ⟨text, id, hcollect, hlink, hbreaks⟩
    · right
      refine ⟨?_, _, way.reverse.map Found.named, ?_, hway.isFork rfl, fun hsource ↦ ?_⟩
      · rintro (h | ⟨hsource, hbreaks⟩)
        · exact hempty h
        · exact Chat.walks_not_breaks hway.walks (by simp [hsource]) hbreaks
      · rw [buildForkHistory, hkeys, if_neg (by simp), hcollect]
        rfl
      · have hlink : (some source |>.filter (· ≠ [])) = some source := by simp [hsource]
        rw [hlink] at hway
        have hlength : way.length ≤ c.messagesMap.keys.length + 1 := by
          have hsub : way.map Found.id ⊆ c.messagesMap.keys := by
            intro id hid
            obtain ⟨b, hb, rfl⟩ := List.mem_map.mp hid
            exact Chat.mem_keys_of_ref (hway.ref b hb)
          have hle := (hway.nodup.subperm hsub).length_le
          rw [List.length_map] at hle
          omega
        refine ⟨((way.filter fun b ↦ !b.message.isEmpty).map Found.ref).reverse, ?_, ?_⟩
        · rw [Chat.getMessageList, hkeys, if_neg (by simp),
            Chat.listFrom_of_way hway (fun b _ ↦ List.not_mem_nil) hlength]
          rfl
        · have hread : (way.filter fun b ↦ !b.message.isEmpty).map (fun b ↦ c.heap[b.ref]?) =
              (way.filter fun b ↦ !b.message.isEmpty).map fun b ↦ some b.message :=
            List.map_congr_left fun b hb ↦ hway.heap b (List.mem_of_mem_filter hb)
          have hnamed : (way.reverse.map Found.named).map Prod.snd = way.reverse.map Found.message := List.map_map
          rw [hnamed, List.map_reverse, List.map_map, List.filter_map, List.map_map, List.filter_reverse,
            List.map_reverse]
          exact congrArg List.reverse hread
    · left
      have hsource : source = id ∧ source ≠ [] := by
        obtain ⟨hid, hne⟩ := Option.filter_eq_some_iff.mp hlink
        exact ⟨Option.some.inj hid, by simpa [Option.some.inj hid] using hne⟩
      refine ⟨.inr ⟨hsource.2, ?_⟩, text, ?_⟩
      · rcases hbreaks with hbreaks | ⟨y, hy, -⟩
        · exact hsource.1 ▸ hbreaks
        · cases hy
      · rw [buildForkHistory, hkeys, if_neg (by simp), hcollect]
        rfl

/-- A root that holds nothing: the fork has it, and `get_message_list` leaves it out. -/
def emptyRoot : Chat Unit where
  heap := [⟨none, none, none, .empty⟩, ⟨none, some (some (py "r")), none, .empty⟩]
  messagesMap := .ofList [(py "r", .message 0), (py "a", .message 1)]
  valid := by
    intro id r h
    have hmem := Keyed.get?_eq_some_iff.mp h
    have hentries : (Keyed.ofList [(py "r", Entry.message 0), (py "a", .message 1)]).entries =
        [(py "r", .message 0), (py "a", .message 1)] := rfl
    rw [hentries] at hmem
    rcases List.mem_cons.mp hmem with heq | hmem
    · cases heq
      decide
    · cases List.mem_singleton.mp hmem
      decide

/-- The fork has two messages and the other walk one, and the fork from an empty id, under which there is nothing,
is empty and no error. -/
theorem emptyRoot_differs :
    (∃ f, buildForkHistory emptyRoot (py "a") 3 = some (.ok f) ∧ f.orderedMessages = [2, 3]) ∧
    emptyRoot.getMessageList (py "a") 3 = some (.ok [1]) ∧
    emptyRoot.message [] = none ∧ ∃ f, buildForkHistory emptyRoot [] 3 = some (.ok f) ∧ f.orderedMessages = [] :=
  ⟨⟨_, rfl, rfl⟩, rfl, rfl, ⟨_, rfl, rfl⟩⟩

end FourCE.Chats.Fork

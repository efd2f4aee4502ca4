import FourCE.Chats.Runs

/-!
# Branches with missing rows

The messages of a chat are rows of `chat_message`, and embedded in the chat as they were before.  Where a
row names a parent that has none, the map takes the parent from the embedded history; what that parent
names in turn is not looked at again.
-/

namespace FourCE.Chats

open FourCE.Library FourCE.Python

/-- A row of `chat_message`, without its identity. -/
structure Row where
  role : Option PyStr
  parent_id : Option PyStr
  output : List (Option PyStr)
  context_summary : Bool
  created_at : ℕ

/-- The rows of a chat by their message ids. -/
abbrev Rows := Keyed PyStr Row

/-- `_build_message`. -/
def buildMessage (data : Message) : Row where
  role := data.role
  parent_id := data.parentId
  output := data.output
  context_summary := data.context_summary || data.contextSummary
  created_at := data.timestamp

/-- The message of a row. -/
def rowMessage (msg_id : PyStr) (row : Row) : Message where
  id := some msg_id
  parentId := row.parent_id
  childrenIds := []
  role := row.role
  timestamp := row.created_at
  contextSummary := row.context_summary
  context_summary := false
  output := row.output

/-- The messages of the rows, before their children are listed. -/
def rowMessages (rows : Rows) : Messages :=
  ⟨rows.entries.map fun e ↦ (e.1, rowMessage e.1 e.2), by rw [List.map_map]; exact rows.nodup⟩

/-- Each message is listed with its parent. -/
def listChildren (messages : Messages) (es : List (PyStr × Message)) : Messages :=
  es.foldl (fun messages_map e ↦ (addChildIdToParent messages_map e.2.parentId e.1).1) messages

/-- `ChatMessages.get_messages_map_by_chat_id`. -/
def messagesMapOfRows (rows : Rows) : Option Messages :=
  if rows.entries = [] then none else some (listChildren (rowMessages rows) (rowMessages rows).entries)

/-- `get_unresolved_parent_ids`, in one order of the set. -/
def getUnresolvedParentIds (messages_map : Messages) : List PyStr :=
  ((messages_map.entries.filterMap fun e ↦ e.2.parentId).filter fun p ↦
    p ≠ [] ∧ p ∉ messages_map.keys).dedup

/-- What `backfill_messages_by_chat_id` writes. -/
def writable (messages : Messages) : Messages := messages.filter fun _ m ↦ truthy m.role

/-- `get_messages_map_by_chat_id`: the map, and the messages that are written as rows.  `chat` has the
embedded messages of the chat. -/
def getMessagesMapByChatId (rows : Rows) (chat : Option Messages) : Option Messages × Messages :=
  match messagesMapOfRows rows with
  | some messages_map =>
    let unresolved_ids := getUnresolvedParentIds messages_map
    if unresolved_ids = [] then (some messages_map, .empty)
    else match chat with
      | some history_messages =>
        let missing_messages := history_messages.filterKeys (· ∈ unresolved_ids)
        (some (messages_map.union missing_messages), writable missing_messages)
      | none => (some messages_map, .empty)
  | none =>
    match chat with
    | some history_messages => (some history_messages, writable history_messages)
    | none => (none, .empty)

/-! ## The map -/

variable {messages_map history_messages : Messages} {rows : Rows}

theorem listChildren_links (messages : Messages) (es : List (PyStr × Message)) :
    (listChildren messages es).keys = messages.keys ∧
      ∀ x p, IsParent (listChildren messages es) x p ↔ IsParent messages x p := by
  induction es generalizing messages with
  | nil => exact ⟨rfl, fun _ _ ↦ Iff.rfl⟩
  | cons e es ih =>
    obtain ⟨hkeys, hparent⟩ := ih (addChildIdToParent messages e.2.parentId e.1).1
    refine ⟨hkeys.trans (keys_addChildIdToParent _ _ _), fun x p ↦ ?_⟩
    exact (hparent x p).trans (isParent_addChildIdToParent _ _ _ x p)

theorem keys_rowMessages (rows : Rows) : (rowMessages rows).keys = rows.keys := by
  unfold rowMessages Keyed.keys
  rw [List.map_map]
  rfl

theorem get?_rowMessages {x : PyStr} {r : Row} (h : rows.get? x = some r) :
    (rowMessages rows).get? x = some (rowMessage x r) :=
  Keyed.get?_eq_some_iff.mpr (List.mem_map.mpr ⟨(x, r), Keyed.get?_eq_some_iff.mp h, rfl⟩)

/-- The rows are of some of the messages, each as it is there. -/
def RowsOf (rows : Rows) (history_messages : Messages) : Prop :=
  ∀ x r, rows.get? x = some r → ∃ m, history_messages.get? x = some m ∧ r = buildMessage m

/-- Some of the messages of a history, with the parents that they have there. -/
structure PartOf (messages_map history_messages : Messages) : Prop where
  mem : ∀ x ∈ messages_map.keys, x ∈ history_messages.keys
  parent : ∀ x p, IsParent messages_map x p ↔ x ∈ messages_map.keys ∧ IsParent history_messages x p

/-- The messages of rows are a part of the history. -/
theorem RowsOf.partOf (h : RowsOf rows history_messages) : PartOf (rowMessages rows) history_messages := by
  have hkey : ∀ x ∈ (rowMessages rows).keys, ∃ m, history_messages.get? x = some m ∧
      (rowMessages rows).get? x = some (rowMessage x (buildMessage m)) := by
    intro x hx
    rw [keys_rowMessages] at hx
    obtain ⟨r, hr⟩ := Keyed.mem_keys.mp hx
    obtain ⟨m, hm, rfl⟩ := h x r hr
    exact ⟨m, hm, get?_rowMessages hr⟩
  refine ⟨fun x hx ↦ ?_, fun x p ↦ ⟨fun hp ↦ ⟨hp.mem, ?_⟩, fun hp ↦ ?_⟩⟩
  · obtain ⟨m, hm, -⟩ := hkey x hx
    exact Keyed.mem_keys.mpr ⟨m, hm⟩
  · obtain ⟨m, hm, hrow⟩ := hkey x hp.mem
    obtain ⟨m', hm', hparent⟩ := hp
    obtain rfl := Option.some.inj (hrow.symm.trans hm')
    exact ⟨m, hm, hparent⟩
  · obtain ⟨m, hm, hrow⟩ := hkey x hp.1
    obtain ⟨m', hm', hparent⟩ := hp.2
    obtain rfl := Option.some.inj (hm.symm.trans hm')
    exact ⟨_, hrow, hparent⟩

theorem mem_getUnresolvedParentIds {p : PyStr} : p ∈ getUnresolvedParentIds messages_map ↔
    p ≠ [] ∧ p ∉ messages_map.keys ∧ ∃ x, IsParent messages_map x p := by
  have hnamed : p ∈ messages_map.entries.filterMap (fun e ↦ e.2.parentId) ↔ ∃ x, IsParent messages_map x p := by
    rw [List.mem_filterMap]
    constructor
    · rintro ⟨⟨x, m⟩, he, hp⟩
      exact ⟨x, m, Keyed.get?_eq_some_iff.mpr he, hp⟩
    · rintro ⟨x, m, hm, hp⟩
      exact ⟨(x, m), Keyed.get?_eq_some_iff.mp hm, hp⟩
  unfold getUnresolvedParentIds
  rw [List.mem_dedup, List.mem_filter, hnamed, decide_eq_true_eq]
  tauto

/-- The map of a chat with rows: what they have, and the parents they name without having them. -/
theorem getMessagesMap_spec (hrows : RowsOf rows history_messages) (hne : rows.entries ≠ []) :
    ∃ messages_map, (getMessagesMapByChatId rows (some history_messages)).1 = some messages_map ∧
      PartOf messages_map history_messages ∧
      ∀ p, p ∈ messages_map.keys ↔ p ∈ rows.keys ∨
        p ∈ history_messages.keys ∧ p ≠ [] ∧ ∃ x ∈ rows.keys, IsParent history_messages x p := by
  obtain ⟨hkeys, hlinks⟩ := listChildren_links (rowMessages rows) (rowMessages rows).entries
  have hpart := hrows.partOf
  have hmap : messagesMapOfRows rows = some (listChildren (rowMessages rows) (rowMessages rows).entries) :=
    if_neg hne
  unfold getMessagesMapByChatId
  rw [hmap]
  generalize listChildren (rowMessages rows) (rowMessages rows).entries = messages_map at hkeys hlinks
  have hpart' : PartOf messages_map history_messages := by
    refine ⟨fun x hx ↦ hpart.mem x (hkeys ▸ hx), fun x p ↦ ?_⟩
    rw [hlinks, hkeys]
    exact hpart.parent x p
  rw [keys_rowMessages] at hkeys
  have hunresolved : ∀ p, p ∈ getUnresolvedParentIds messages_map ↔
      p ≠ [] ∧ p ∉ rows.keys ∧ ∃ x ∈ rows.keys, IsParent history_messages x p := by
    intro p
    rw [mem_getUnresolvedParentIds, hkeys]
    simp only [hpart'.parent, hkeys]
  simp only
  split_ifs with hnone
  · refine ⟨messages_map, rfl, hpart', fun p ↦ ?_⟩
    have hp : p ∉ getUnresolvedParentIds messages_map := by
      rw [hnone]
      exact List.not_mem_nil
    rw [hunresolved] at hp
    rw [hkeys]
    refine ⟨Or.inl, fun h ↦ h.elim id fun hadded ↦ ?_⟩
    by_contra hout
    exact hp ⟨hadded.2.1, hout, hadded.2.2⟩
  · refine ⟨_, rfl, ⟨fun x hx ↦ ?_, fun x p ↦ ?_⟩, fun p ↦ ?_⟩
    · rcases Keyed.mem_keys_union.mp hx with hx | hx
      · exact hpart'.mem x hx
      · rw [Keyed.keys_filterKeys] at hx
        exact (List.mem_filter.mp hx).1
    · rw [Keyed.mem_keys_union, Keyed.keys_filterKeys, List.mem_filter, decide_eq_true_eq]
      by_cases hx : x ∈ getUnresolvedParentIds messages_map
      · have hout := (mem_getUnresolvedParentIds.mp hx).2.1
        have hsame := @isParent_congr history_messages (messages_map.union
          (history_messages.filterKeys (· ∈ getUnresolvedParentIds messages_map))) x p (by
            rw [Keyed.get?_union, Keyed.get?_filterKeys, if_pos (decide_eq_true hx), Keyed.get?_eq_none.mpr hout,
              Option.or_none])
        rw [hsame]
        exact ⟨fun hp ↦ ⟨Or.inr ⟨hp.mem, hx⟩, hp⟩, And.right⟩
      · have hsame := @isParent_congr messages_map (messages_map.union
          (history_messages.filterKeys (· ∈ getUnresolvedParentIds messages_map))) x p (by
            rw [Keyed.get?_union, Keyed.get?_filterKeys, if_neg (by simpa using hx), Option.none_or])
        rw [hsame, hpart'.parent]
        tauto
    · rw [Keyed.mem_keys_union, Keyed.keys_filterKeys, List.mem_filter, decide_eq_true_eq, hunresolved, hkeys]
      tauto

/-! ## The branches -/

/-- The message list of `x` is its branch in the history, from the root down. -/
def FullBranch (messages_map history_messages : Messages) (x : PyStr) : Prop :=
  ∃ ids, Upward history_messages x ids ∧
    List.Forall₂ (fun id m ↦ messages_map.get? id = some m) ids.reverse (getMessageList messages_map x)

theorem PartOf.upward (h : PartOf messages_map history_messages) {x : PyStr} {ids : List PyStr}
    (hids : Upward messages_map x ids) : Upward history_messages x ids := by
  induction hids with
  | root hx hp => exact .root (h.mem _ hx) fun p hparent ↦ hp p ((h.parent _ p).mpr ⟨hx, hparent⟩)
  | step hp _ ih => exact .step ((h.parent _ _).mp hp).2 ih

/-- No parent that the history has is missing, and every message list is a full branch. -/
structure Healed (messages_map history_messages : Messages) : Prop where
  resolved : ∀ x p, IsParent messages_map x p → p ∈ history_messages.keys → p ∈ messages_map.keys
  branch : ∀ x ∈ messages_map.keys, FullBranch messages_map history_messages x

theorem healed_iff_closed (h : PartOf messages_map history_messages)
    (hacyclic : Acyclic (IsParent history_messages))
    (hparents : ∀ x p, IsParent history_messages x p → p ∈ history_messages.keys) :
    Healed messages_map history_messages ↔ Closed messages_map := by
  constructor
  · intro hhealed x p hp
    have hhistory := ((h.parent x p).mp hp).2
    refine ⟨?_, hhealed.resolved x p hp (hparents x p hhistory)⟩
    rintro rfl
    -- The list stops below an empty parent id, the branch does not.
    obtain ⟨ids, hids, hlist⟩ := hhealed.branch x hp.mem
    have hlong : 2 ≤ ids.length := by
      cases hids with
      | root hx hnone => exact absurd hhistory (hnone _)
      | step hp' hrest => cases hrest <;> simp
    obtain ⟨m, hm, hm'⟩ := hp
    obtain ⟨n, hn⟩ : ∃ n, messages_map.entries.length = n + 1 :=
      Nat.exists_eq_succ_of_ne_zero
        (List.length_pos_of_mem (Keyed.get?_eq_some_iff.mp hm)).ne'
    have hshort : getMessageList messages_map x = [m] := by
      rw [getMessageList, hn, messageChain]
      simp [hm, hm']
    have hlength := hlist.length_eq
    rw [hshort, List.length_reverse, List.length_singleton] at hlength
    omega
  · intro hclosed
    refine ⟨fun x p hp _ ↦ (hclosed x p hp).2, fun x hx ↦ ?_⟩
    have hacyclic' : Acyclic (IsParent messages_map) :=
      hacyclic.shorten fun a b hab ↦ .single ((h.parent a b).mp hab).2
    have hlength : messages_map.keys.length = messages_map.entries.length := by
      unfold Keyed.keys
      rw [List.length_map]
    obtain ⟨ids, hids, hchain⟩ := messageChain_upward hacyclic' hclosed hx List.nodup_nil
      (List.forall_mem_nil _) hlength.le
    exact ⟨ids, h.upward hids, List.rel_reverse hchain⟩

/-- A message that has a row names a message that has one or whose own parent has one, or is named by a
row as well; and none names the empty id. -/
def GapsOfOne (rows : Rows) (history_messages : Messages) : Prop :=
  ∀ x ∈ rows.keys, ∀ p, IsParent history_messages x p → p ≠ [] ∧ (p ∈ rows.keys ∨
    ∀ q, IsParent history_messages p q → q ≠ [] ∧
      (q ∈ rows.keys ∨ ∃ y ∈ rows.keys, IsParent history_messages y q))

/-- A chat with rows is healed by one request if and only if no two missing messages follow one another
on the way up from a row. -/
theorem healed_iff {history : History} (hwf : WellFormed history) (hrows : RowsOf rows history.messages)
    (hne : rows.entries ≠ []) :
    ∃ messages_map, (getMessagesMapByChatId rows (some history.messages)).1 = some messages_map ∧
      (Healed messages_map history.messages ↔ GapsOfOne rows history.messages) := by
  obtain ⟨messages_map, hmap, hpart, hkeys⟩ := getMessagesMap_spec hrows hne
  refine ⟨messages_map, hmap, (healed_iff_closed hpart hwf.acyclic hwf.parent_mem).trans ?_⟩
  constructor
  · intro hclosed x hx p hp
    have hclosed' : ∀ y ∈ messages_map.keys, ∀ q, IsParent history.messages y q → q ≠ [] ∧
        (q ∈ rows.keys ∨ ∃ z ∈ rows.keys, IsParent history.messages z q) := by
      intro y hy q hq
      obtain ⟨hne', hmem⟩ := hclosed y q ((hpart.parent y q).mpr ⟨hy, hq⟩)
      exact ⟨hne', ((hkeys q).mp hmem).imp_right fun hadded ↦ hadded.2.2⟩
    have hp' := (hclosed' x ((hkeys x).mpr (Or.inl hx)) p hp).1
    refine ⟨hp', Or.inr fun q hq ↦ hclosed' p ((hkeys p).mpr (Or.inr ?_)) q hq⟩
    exact ⟨hwf.parent_mem x p hp, hp', x, hx, hp⟩
  · intro hgaps x p hp
    obtain ⟨hx, hp⟩ := (hpart.parent x p).mp hp
    have hp' := hwf.parent_mem x p hp
    rcases (hkeys x).mp hx with hx | ⟨-, -, y, hy, hyx⟩
    · obtain ⟨hne', -⟩ := hgaps x hx p hp
      exact ⟨hne', (hkeys p).mpr (Or.inr ⟨hp', hne', x, hx, hp⟩)⟩
    · rcases (hgaps y hy x hyx).2 with hrow | hnext
      · obtain ⟨hne', -⟩ := hgaps x hrow p hp
        exact ⟨hne', (hkeys p).mpr (Or.inr ⟨hp', hne', x, hrow, hp⟩)⟩
      · obtain ⟨hne', hmem⟩ := hnext p hp
        exact ⟨hne', (hkeys p).mpr (hmem.imp_right fun hnamed ↦ ⟨hp', hne', hnamed⟩)⟩

/-! ### A conversation of three messages -/

def threeMessages : List Op :=
  [.upsert (py "a") (under none) 1, .upsert (py "b") (under (some (py "a"))) 2,
    .upsert (py "c") (under (some (py "b"))) 3]

def threeHistory : History := applyAll noMessages threeMessages

theorem threeMessages_allowed : AllAllowed noMessages threeMessages := by
  refine ⟨Or.inl ⟨by decide, rfl, fun p hp ↦ by cases hp⟩,
    Or.inl ⟨by decide, rfl, fun p hp ↦ ?_⟩, Or.inl ⟨by decide, rfl, fun p hp ↦ ?_⟩, trivial⟩
  · cases hp
    exact ⟨by decide, by decide⟩
  · cases hp
    exact ⟨by decide, by decide⟩

theorem wellFormed_threeHistory : WellFormed threeHistory :=
  (tree_applyAll tree_noMessages threeMessages_allowed).wellFormed

/-- The rows of some of the messages. -/
def rowsOf (messages : Messages) (p : PyStr → Bool) : Rows :=
  ⟨(messages.filterKeys p).entries.map fun e ↦ (e.1, buildMessage e.2), by
    rw [List.map_map]
    exact (messages.filterKeys p).nodup⟩

theorem rowsOf_rowsOf (messages : Messages) (p : PyStr → Bool) : RowsOf (rowsOf messages p) messages := by
  intro x r hr
  obtain ⟨⟨y, m⟩, he, hpair⟩ := List.mem_map.mp (Keyed.get?_eq_some_iff.mp hr)
  cases hpair
  exact ⟨m, Keyed.get?_eq_some_iff.mpr (List.mem_filter.mp he).1, rfl⟩

/-- Of `c`, `b` and `a` the middle one has no row. -/
theorem healed_iff_middle :
    ∃ messages_map, (getMessagesMapByChatId (rowsOf threeHistory.messages (· ≠ py "b"))
        (some threeHistory.messages)).1 = some messages_map ∧
      (Healed messages_map threeHistory.messages ↔
        GapsOfOne (rowsOf threeHistory.messages (· ≠ py "b")) threeHistory.messages) :=
  healed_iff wellFormed_threeHistory (rowsOf_rowsOf _ _) (by decide)

/-- Of `c` alone the first request has `b` and `c`, and the parent of `b` is in the history. -/
theorem last_row_not_healed :
    ∃ messages_map, RowsOf (rowsOf threeHistory.messages (· = py "c")) threeHistory.messages ∧
      (getMessagesMapByChatId (rowsOf threeHistory.messages (· = py "c"))
        (some threeHistory.messages)).1 = some messages_map ∧
      py "a" ∈ threeHistory.messages.keys ∧ py "a" ∈ getUnresolvedParentIds messages_map ∧
      (getMessageList messages_map (py "c")).map Message.parentId = [some (py "a"), some (py "b")] := by
  obtain ⟨messages_map, hmap⟩ := Option.isSome_iff_exists.mp (show
    (getMessagesMapByChatId (rowsOf threeHistory.messages (· = py "c")) (some threeHistory.messages)).1.isSome =
      true by decide)
  have hget : messages_map = (getMessagesMapByChatId (rowsOf threeHistory.messages (· = py "c"))
      (some threeHistory.messages)).1.getD .empty := by
    rw [hmap]
    rfl
  exact ⟨messages_map, rowsOf_rowsOf _ _, hmap, by decide, by rw [hget]; decide,
    by rw [hget]; decide⟩

end FourCE.Chats

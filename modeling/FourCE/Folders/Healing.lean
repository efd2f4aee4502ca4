import FourCE.Folders.Table
import Mathlib.Algebra.GroupWithZero.Nat

/-!
# Broken links of folders

`get_folders` of `routers/folders.py`, which puts a folder back at the root whose parent is missing or whose parents
go round, and `get_folder_unread_counts`.  What `get_folders` does to the files of a folder is left out.
-/

namespace FourCE.Folders

open FourCE.Library FourCE.Python Relation

/-- `is_in_parent_cycle(folder_id)` -/
def isInParentCycle (parent_by_id : Keyed PyStr (Option PyStr)) (folder_id : PyStr) : Option Bool :=
  (walk (nextOf parent_by_id) parent_by_id.keys.length (nextOf parent_by_id folder_id) [folder_id]).map fun r ↦
    r.2 = some folder_id

/-- What the loop of `get_folders` changes. -/
structure Healing where
  parentById : Keyed PyStr (Option PyStr)
  table : Table
  folderList : List (PyStr × Folder)

/-- One turn of the loop.  It has no result where something raises. -/
def heal (user_id : PyStr) (now : ℤ) (s : Healing) (folder : PyStr × Folder) : Option Healing :=
  let keep : Healing := { s with folderList := s.folderList ++ [folder] }
  match folder.2.parentId.filter (· ≠ []) with
  | none => some keep
  | some parent_id => do
    let broken ← if parent_id ∉ s.parentById.keys then some true else isInParentCycle s.parentById folder.1
    if broken then
      let updated := s.table.updateFolderParentId folder.1 user_id none now
      let moved ← updated.2
      some ⟨s.parentById.set folder.1 none, updated.1, s.folderList ++ [(folder.1, moved)]⟩
    else some keep

/-- `count_unread_by_folder_ids`, for a number of unread chats in each folder. -/
def countUnread (unread : PyStr → ℕ) (folder_ids : List PyStr) : List (PyStr × ℕ) :=
  (folder_ids.filter (unread · ≠ 0)).map fun id ↦ (id, unread id)

/-- The inner loop of `get_folder_unread_counts`. -/
def countUp (parent_by_id : Keyed PyStr (Option PyStr)) (unread_counts : Keyed PyStr ℕ) (entry : PyStr × ℕ) :
    Option (Keyed PyStr ℕ) :=
  (walk (nextOf parent_by_id) (parent_by_id.keys.length + 1) (some entry.1 |>.filter (· ≠ [])) []).map fun r ↦
    r.1.foldl (fun counts current_id ↦ counts.modify current_id (· + entry.2)) unread_counts

/-- `get_folder_unread_counts(user_id)` -/
def getFolderUnreadCounts (t : Table) (user_id : PyStr) (unread : PyStr → ℕ) : Option (Keyed PyStr ℕ) := do
  let folders ← t.getFoldersByUserId user_id
  let parent_by_id := parentById folders
  (countUnread unread parent_by_id.keys).foldlM (countUp parent_by_id) (.ofList (parent_by_id.keys.map fun id ↦ (id, 0)))

/-- `get_folders` for a user: the folders with their unread counts, and the table afterwards. -/
def getFolders (t : Table) (user_id : PyStr) (now : ℤ) (unread : PyStr → ℕ) :
    Option (Table × List (PyStr × Folder × ℕ)) := do
  let folders ← t.getFoldersByUserId user_id
  let s ← folders.foldlM (heal user_id now) ⟨parentById folders, t, []⟩
  let unread_counts ← getFolderUnreadCounts s.table user_id unread
  return (s.table, s.folderList.map fun folder ↦ (folder.1, folder.2, (unread_counts.get? folder.1).getD 0))

/-! ## The loop -/

/-- The folder put back at the root. -/
def Folder.atRoot (f : Folder) (now : ℤ) : Folder := { f with parentId := none, updatedAt := now }

/-- A folder whose parent the user does not have. -/
def Missing (t : Table) (user_id id : PyStr) : Prop :=
  ∃ parent, parentOf t user_id id = some parent ∧ parent ∉ (t.owned user_id).map Prod.fst

section

variable {t : Table} {user_id : PyStr} {now : ℤ}

theorem Missing.not_cycle {id : PyStr} (h : Missing t user_id id) :
    ¬ TransGen (Leads (parentOf t user_id)) id id := by
  intro hcycle
  obtain ⟨parent, hparent, hnone⟩ := h
  have hparentCycle := cycle_of_reach hcycle (.single hparent)
  obtain ⟨grand, hgrand, -⟩ := TransGen.head'_iff.mp hparentCycle
  exact hnone (mem_owned_of_parentOf hgrand)

/-- What the loop has done to the folders that it has gone over. -/
structure Gone (t : Table) (user_id : PyStr) (now : ℤ) (done : List (PyStr × Folder)) (healed : List PyStr)
    (s : Healing) : Prop where
  keys : s.parentById.keys = (t.owned user_id).map Prod.fst
  parents : nextOf s.parentById = cut (parentOf t user_id) healed
  tableKeys : s.table.keys = t.keys
  table : ∀ id, s.table.get? id = (t.get? id).map fun f ↦ if id ∈ healed then f.atRoot now else f
  list : s.folderList = done.map fun e ↦ (e.1, if e.1 ∈ healed then e.2.atRoot now else e.2)
  mended : Mended (parentOf t user_id) (Missing t user_id) (done.map Prod.fst) healed

theorem isInParentCycle_eq {parent_by_id : Keyed PyStr (Option PyStr)} {id : PyStr} (h : id ∈ parent_by_id.keys) :
    ∃ b, isInParentCycle parent_by_id id = some b ∧
      (b = true ↔ TransGen (Leads (nextOf parent_by_id)) id id) := by
  have hxs : ∀ a b, nextOf parent_by_id a = some b → a ∈ parent_by_id.keys := by
    intro a b hab
    by_contra hnone
    rw [nextOf, Keyed.get?_eq_none.mpr hnone] at hab
    cases hab
  obtain ⟨visited, stop, hwalk, hwalked⟩ := @walk_spec _ _ _ _ hxs _ (nextOf parent_by_id id) _ (List.nodup_singleton id)
    (List.forall_mem_singleton.mpr h) (Nat.lt_succ_self _)
  refine ⟨decide (stop = some id), ?_, by rw [decide_eq_true_eq, hwalked.stop_eq_iff]⟩
  rw [isInParentCycle, hwalk]
  rfl

/-- One turn puts a folder at the root that misses its parent or is on a cycle. -/
theorem gone_heal {done : List (PyStr × Folder)} {healed : List PyStr} {s : Healing} (h : Gone t user_id now done healed s)
    {e : PyStr × Folder} (he : e ∈ t.owned user_id) (hvalid : e.2.valid = true) (hnew : e.1 ∉ done.map Prod.fst) :
    ∃ s' healed', heal user_id now s e = some s' ∧ Gone t user_id now (done ++ [e]) healed' s' := by
  obtain ⟨hget, huser⟩ := mem_owned.mp he
  have hfresh : e.1 ∉ healed := fun hmem ↦ hnew (h.mended.cause e.1 hmem).1
  have hparent : parentOf t user_id e.1 = e.2.parentId.filter (· ≠ []) := by
    rw [parentOf, hget, Option.filter_some, if_pos (by simpa using huser)]
    rfl
  have hkeep (hmissing : ¬ Missing t user_id e.1) (hcut : ¬ TransGen (Leads (nextOf s.parentById)) e.1 e.1) :
      Gone t user_id now (done ++ [e]) healed { s with folderList := s.folderList ++ [e] } := by
    refine ⟨h.keys, h.parents, h.tableKeys, h.table, ?_, ?_⟩
    · simp only [List.map_append, List.map_singleton, if_neg hfresh, h.list]
    · rw [List.map_append]
      exact h.mended.keep hmissing (h.parents ▸ hcut)
  have hrow : s.table.get? e.1 = some e.2 := by
    rw [h.table, hget, Option.map_some, if_neg hfresh]
  have hupdate : s.table.updateFolderParentId e.1 user_id none now =
      (s.table.set e.1 (e.2.atRoot now), some (e.2.atRoot now)) := by
    rw [Table.updateFolderParentId, hrow, Option.filter_some, if_pos (by simpa using huser)]
    exact Prod.ext rfl (if_pos hvalid)
  have hmend (hcause : Missing t user_id e.1 ∨ TransGen (Leads (nextOf s.parentById)) e.1 e.1) :
      Gone t user_id now (done ++ [e]) (healed ++ [e.1])
        ⟨s.parentById.set e.1 none, s.table.set e.1 (e.2.atRoot now), s.folderList ++ [(e.1, e.2.atRoot now)]⟩ := by
    have hkey : e.1 ∈ s.parentById.keys := by
      rw [h.keys]
      exact List.mem_map_of_mem he
    have htableKey : e.1 ∈ s.table.keys := Keyed.mem_keys.mpr ⟨_, hrow⟩
    refine ⟨?_, ?_, ?_, fun id ↦ ?_, ?_, ?_⟩
    · rw [Keyed.keys_set, if_pos hkey, h.keys]
    · funext id
      by_cases hid : id = e.1
      · simp [nextOf, Keyed.get?_set, cut, hid]
      · have hsame : nextOf (s.parentById.set e.1 none) id = nextOf s.parentById id := by
          rw [nextOf, Keyed.get?_set, if_neg hid, nextOf]
        have hold : nextOf s.parentById id = cut (parentOf t user_id) healed id := congrFun h.parents id
        exact hsame.trans (hold.trans (by simp [cut, hid]))
    · rw [Keyed.keys_set, if_pos htableKey, h.tableKeys]
    · rw [Keyed.get?_set]
      by_cases hid : id = e.1
      · rw [if_pos hid, hid, hget]
        simp
      · rw [if_neg hid, h.table]
        simp [hid]
    · have hdone : s.folderList = done.map fun d ↦ (d.1, if d.1 ∈ healed ++ [e.1] then d.2.atRoot now else d.2) := by
        refine h.list.trans (List.map_congr_left fun d hd ↦ ?_)
        have hne : d.1 ≠ e.1 := fun heq ↦ hnew (heq ▸ List.mem_map_of_mem hd)
        simp [hne]
      simp [hdone]
    · rw [List.map_append]
      exact h.mended.mend (fun _ hmissing ↦ hmissing.not_cycle) (h.parents ▸ hcause)
  unfold heal
  rcases hfolder : e.2.parentId.filter (· ≠ []) with - | parent
  · have hnone : parentOf t user_id e.1 = none := hparent.trans hfolder
    refine ⟨_, healed, rfl, hkeep ?_ fun hcycle ↦ ?_⟩
    · rintro ⟨parent, hsome, -⟩
      rw [hnone] at hsome
      cases hsome
    · obtain ⟨parent, hsome, -⟩ := TransGen.head'_iff.mp hcycle
      rw [h.parents] at hsome
      have hback : parentOf t user_id e.1 = some parent := (leads_cut.mp hsome).2
      rw [hnone] at hback
      cases hback
  · have hsome : parentOf t user_id e.1 = some parent := hparent.trans hfolder
    by_cases hmissing : parent ∉ s.parentById.keys
    · refine ⟨_, healed ++ [e.1], ?_, hmend (.inl ⟨parent, hsome, h.keys ▸ hmissing⟩)⟩
      simp only [if_pos hmissing, hupdate, Option.bind_eq_bind, Option.bind_some, if_true]
    · have hkey : e.1 ∈ s.parentById.keys := by
        rw [h.keys]
        exact List.mem_map_of_mem he
      obtain ⟨b, hb, hiff⟩ := isInParentCycle_eq hkey
      cases b with
      | true =>
        refine ⟨_, healed ++ [e.1], ?_, hmend (.inr (hiff.mp rfl))⟩
        simp only [if_neg hmissing, hb, hupdate, Option.bind_eq_bind, Option.bind_some, if_true]
      | false =>
        refine ⟨_, healed, ?_, hkeep ?_ fun hcycle ↦ Bool.noConfusion (hiff.mpr hcycle)⟩
        · simp only [if_neg hmissing, hb, Option.bind_eq_bind, Option.bind_some, Bool.false_eq_true, if_false]
        · rintro ⟨parent', hparent', hnone⟩
          obtain rfl := Option.some.inj (hsome.symm.trans hparent')
          exact hmissing (h.keys ▸ hnone)

/-- The whole loop. -/
theorem gone_foldlM {done rest : List (PyStr × Folder)} {healed : List PyStr} {s : Healing}
    (h : Gone t user_id now done healed s) (hall : done ++ rest = t.owned user_id)
    (hvalid : ∀ e ∈ t.owned user_id, e.2.valid = true) :
    ∃ s' healed', rest.foldlM (heal user_id now) s = some s' ∧ Gone t user_id now (t.owned user_id) healed' s' := by
  induction rest generalizing done healed s with
  | nil => exact ⟨s, healed, rfl, by rwa [← hall, List.append_nil]⟩
  | cons e rest ih =>
    have he : e ∈ t.owned user_id := hall ▸ List.mem_append_right _ List.mem_cons_self
    have hnew : e.1 ∉ done.map Prod.fst := by
      have hnodup := owned_nodup t user_id
      rw [← hall, List.map_append, List.map_cons] at hnodup
      exact fun hmem ↦ List.disjoint_of_nodup_append hnodup hmem List.mem_cons_self
    obtain ⟨s', healed', hstep, hgone⟩ := gone_heal h he (hvalid e he) hnew
    have hall' : done ++ [e] ++ rest = t.owned user_id := by rw [← hall, List.append_assoc, List.singleton_append]
    rw [List.foldlM_cons, hstep]
    exact ih hgone hall'

theorem gone_start : Gone t user_id now [] [] ⟨parentById (t.owned user_id), t, []⟩ := by
  refine ⟨keys_parentById t user_id, ?_, rfl, fun id ↦ ?_, rfl, Mended.nil _ _⟩
  · rw [nextOf_parentById]
    funext id
    simp [cut]
  · simp

/-! ## Unread counts -/

theorem get?_foldl_modify {visited : List PyStr} (hnodup : visited.Nodup) (counts : Keyed PyStr ℕ) (n : ℕ) (id : PyStr) :
    (visited.foldl (fun counts current_id ↦ counts.modify current_id (· + n)) counts).get? id =
      (counts.get? id).map fun m ↦ if id ∈ visited then m + n else m := by
  induction visited generalizing counts with
  | nil => simp
  | cons a visited ih =>
    obtain ⟨ha, hrest⟩ := List.nodup_cons.mp hnodup
    rw [List.foldl_cons, ih hrest, Keyed.get?_modify]
    by_cases hid : id = a
    · subst hid
      simp only [if_true, Option.map_map, if_neg ha, List.mem_cons, true_or]
      rfl
    · simp [hid]

open Classical in
/-- The unread chats of the entries below a folder. -/
noncomputable def countBelow (next : PyStr → Option PyStr) (entries : List (PyStr × ℕ)) (id : PyStr) : ℕ :=
  ((entries.filter fun e ↦ ReflTransGen (Leads next) e.1 id).map Prod.snd).sum

theorem countUp_spec {parent_by_id : Keyed PyStr (Option PyStr)} {counts : Keyed PyStr ℕ} {entry : PyStr × ℕ}
    (hentry : entry.1 ≠ []) : ∃ counts', countUp parent_by_id counts entry = some counts' ∧
      ∀ id, counts'.get? id = (counts.get? id).map (· + countBelow (nextOf parent_by_id) [entry] id) := by
  have hxs : ∀ a b, nextOf parent_by_id a = some b → a ∈ parent_by_id.keys := by
    intro a b hab
    by_contra hnone
    rw [nextOf, Keyed.get?_eq_none.mpr hnone] at hab
    cases hab
  obtain ⟨visited, stop, hwalk, hwalked⟩ := @walk_spec _ _ _ _ hxs _ (some entry.1) _ List.nodup_nil (List.forall_mem_nil _)
    (Nat.lt_succ_self _)
  refine ⟨visited.foldl (fun counts current_id ↦ counts.modify current_id (· + entry.2)) counts, ?_, fun id ↦ ?_⟩
  · rw [countUp, Option.filter_some, if_pos (by simpa using hentry), hwalk]
    rfl
  · rw [get?_foldl_modify hwalked.nodup]
    congr 1
    funext m
    unfold countBelow
    by_cases hid : id ∈ visited
    · simp [hid, hwalked.mem_iff.mp hid]
    · have hnot : ¬ ReflTransGen (Leads (nextOf parent_by_id)) entry.1 id := fun h ↦ hid (hwalked.mem_iff.mpr h)
      simp [hid, hnot]

theorem foldlM_countUp {parent_by_id : Keyed PyStr (Option PyStr)} {entries : List (PyStr × ℕ)}
    (hentries : ∀ e ∈ entries, e.1 ≠ []) (counts : Keyed PyStr ℕ) :
    ∃ counts', entries.foldlM (countUp parent_by_id) counts = some counts' ∧
      ∀ id, counts'.get? id = (counts.get? id).map (· + countBelow (nextOf parent_by_id) entries id) := by
  induction entries generalizing counts with
  | nil => exact ⟨counts, rfl, fun id ↦ by simp [countBelow]⟩
  | cons e entries ih =>
    obtain ⟨he, hrest⟩ := List.forall_mem_cons.mp hentries
    obtain ⟨counts₁, hstep, hget₁⟩ := @countUp_spec parent_by_id counts _ he
    obtain ⟨counts₂, hfold, hget₂⟩ := ih hrest counts₁
    refine ⟨counts₂, ?_, fun id ↦ ?_⟩
    · rw [List.foldlM_cons, hstep]
      exact hfold
    · rw [hget₂, hget₁, Option.map_map]
      congr 1
      funext m
      have hsum : countBelow (nextOf parent_by_id) (e :: entries) id =
          countBelow (nextOf parent_by_id) [e] id + countBelow (nextOf parent_by_id) entries id := by
        unfold countBelow
        rw [← List.sum_append, ← List.map_append, ← List.filter_append]
        rfl
      rw [hsum, Function.comp_apply, Nat.add_assoc]

/-- Every folder's count is the sum of those in its subtree. -/
theorem getFolderUnreadCounts_spec (hvalid : ∀ e ∈ t.owned user_id, e.2.valid = true) (hids : [] ∉ t.keys)
    (unread : PyStr → ℕ) : ∃ counts, getFolderUnreadCounts t user_id unread = some counts ∧
      ∀ id ∈ (t.owned user_id).map Prod.fst, ∃ below : List PyStr, below.Nodup ∧
        (∀ x, x ∈ below ↔ x ∈ (t.owned user_id).map Prod.fst ∧ ReflTransGen (Leads (parentOf t user_id)) x id) ∧
        counts.get? id = some (below.map unread).sum := by
  classical
  have hkeys := keys_parentById t user_id
  have hne : [] ∉ (t.owned user_id).map Prod.fst := by
    intro hmem
    obtain ⟨e, he, hnil⟩ := List.mem_map.mp hmem
    exact hids (Keyed.mem_keys.mpr ⟨e.2, hnil ▸ (mem_owned.mp he).1⟩)
  have hentries : ∀ e ∈ countUnread unread (parentById (t.owned user_id)).keys, e.1 ≠ [] := by
    rintro e he hnil
    obtain ⟨id, hid, rfl⟩ := List.mem_map.mp he
    rw [hkeys] at hid
    exact hne (hnil ▸ (List.mem_filter.mp hid).1)
  obtain ⟨counts, hfold, hget⟩ := @foldlM_countUp (parentById (t.owned user_id)) _ hentries
    (.ofList ((parentById (t.owned user_id)).keys.map fun id ↦ (id, 0)))
  refine ⟨counts, ?_, fun id hid ↦ ?_⟩
  · rw [getFolderUnreadCounts, Table.getFoldersByUserId, Table.models, if_pos (List.all_eq_true.mpr hvalid)]
    exact hfold
  · refine ⟨((t.owned user_id).map Prod.fst).filter fun x ↦ ReflTransGen (Leads (parentOf t user_id)) x id,
      (owned_nodup t user_id).filter _, fun x ↦ by simp, ?_⟩
    have hzero : (Keyed.ofList ((parentById (t.owned user_id)).keys.map fun id ↦ (id, 0))).get? id = some 0 := by
      rw [Keyed.get?_eq_some_iff, Keyed.entries_ofList, hkeys]
      · exact List.mem_map.mpr ⟨id, hid, rfl⟩
      · rw [List.map_map]
        exact (List.map_id _).symm ▸ Keyed.keys_nodup _
    rw [hget, hzero, Option.map_some, Nat.zero_add, nextOf_parentById, hkeys]
    congr 1
    unfold countBelow countUnread
    -- the folders without unread chats, which are not in the dictionary, add nothing
    induction (t.owned user_id).map Prod.fst with
    | nil => rfl
    | cons x xs ih =>
      by_cases hreach : ReflTransGen (Leads (parentOf t user_id)) x id <;> by_cases hunread : unread x = 0
      all_goals simp_all

/-! ## The result -/

/-- The parent of a folder has changed. -/
def Changed (t t' : Table) (user_id id : PyStr) : Prop := parentOf t' user_id id ≠ parentOf t user_id id

/-- What `get_folders` leaves and returns. -/
structure Heals (t : Table) (user_id : PyStr) (now : ℤ) (unread : PyStr → ℕ) (t' : Table)
    (response : List (PyStr × Folder × ℕ)) : Prop where
  ends : ∀ id ∈ (t'.owned user_id).map Prod.fst, ∃ root ∈ (t'.owned user_id).map Prod.fst,
    ReflTransGen (Leads (parentOf t' user_id)) id root ∧ parentOf t' user_id root = none
  keys : t'.keys = t.keys
  kept : ∀ id, ¬ Changed t t' user_id id → t'.get? id = t.get? id
  moved : ∀ id, Changed t t' user_id id → ∃ folder, t.get? id = some folder ∧ folder.userId = user_id ∧
    t'.get? id = some (folder.atRoot now)
  cause : ∀ id, Changed t t' user_id id → Missing t user_id id ∨ TransGen (Leads (parentOf t user_id)) id id
  missing : ∀ id, Missing t user_id id → Changed t t' user_id id
  cycles : ∀ id, TransGen (Leads (parentOf t user_id)) id id →
    ∃! c, ReflTransGen (Leads (parentOf t user_id)) id c ∧ Changed t t' user_id c
  listed : response.map Prod.fst = (t'.owned user_id).map Prod.fst
  counts : ∀ e ∈ response, t'.get? e.1 = some e.2.1 ∧ ∃ below : List PyStr, below.Nodup ∧
    (∀ x, x ∈ below ↔ x ∈ (t'.owned user_id).map Prod.fst ∧ ReflTransGen (Leads (parentOf t' user_id)) x e.1) ∧
    e.2.2 = (below.map unread).sum

/-- Where the loop has gone over all folders the table has the folders as before, but for the healed ones. -/
theorem Gone.parentOf_eq {healed : List PyStr} {s : Healing} (h : Gone t user_id now (t.owned user_id) healed s) :
    parentOf s.table user_id = cut (parentOf t user_id) healed := by
  funext id
  unfold parentOf cut
  rw [h.table]
  rcases hget : t.get? id with - | f
  · simp [hget]
  · by_cases hid : id ∈ healed <;> by_cases huser : f.userId = user_id <;> simp [hget, hid, huser, Folder.atRoot]

theorem Gone.owned_eq {healed : List PyStr} {s : Healing} (h : Gone t user_id now (t.owned user_id) healed s) :
    s.table.owned user_id = s.folderList := by
  have htable : s.table = t.map fun id f ↦ if id ∈ healed then f.atRoot now else f := by
    refine Keyed.ext_get ?_ fun id ↦ ?_
    · rw [h.tableKeys, Keyed.keys_map]
    · rw [h.table, Keyed.get?_map]
  have huser (e : PyStr × Folder) : (if e.1 ∈ healed then e.2.atRoot now else e.2).userId = e.2.userId := by
    split <;> rfl
  rw [h.list, htable, Table.owned, Table.owned, Keyed.map, List.filter_map]
  simp only [Function.comp_def, huser]

/-- `get_folders` heals the folders of its user and counts what is unread below each. -/
theorem getFolders_heals (t : Table) (user_id : PyStr) (now : ℤ) (unread : PyStr → ℕ)
    (hvalid : ∀ e ∈ t.owned user_id, e.2.valid = true) (hids : [] ∉ t.keys) :
    ∃ t' response, getFolders t user_id now unread = some (t', response) ∧
      Heals t user_id now unread t' response := by
  obtain ⟨s, healed, hfold, h⟩ := gone_foldlM (@gone_start _ _ now) (List.nil_append _) hvalid
  have hparent := h.parentOf_eq
  have howned := h.owned_eq
  have hchanged : ∀ id, Changed t s.table user_id id ↔ id ∈ healed := by
    intro id
    unfold Changed
    rw [hparent, cut]
    constructor
    · intro hne
      by_contra hid
      rw [if_neg hid] at hne
      exact hne rfl
    · intro hid
      rw [if_pos hid]
      rcases (h.mended.cause id hid).2 with ⟨parent, hsome, -⟩ | hcycle
      · rw [hsome]
        exact (Option.some_ne_none _).symm
      · obtain ⟨parent, hsome, -⟩ := TransGen.head'_iff.mp hcycle
        rw [show parentOf t user_id id = some parent from hsome]
        exact (Option.some_ne_none _).symm
  have hids' : (s.table.owned user_id).map Prod.fst = (t.owned user_id).map Prod.fst := by
    rw [howned, h.list, List.map_map]
    rfl
  have hvalid' : ∀ e ∈ s.table.owned user_id, e.2.valid = true := by
    intro e he
    rw [howned, h.list] at he
    obtain ⟨d, hd, rfl⟩ := List.mem_map.mp he
    have hd' := hvalid d hd
    split
    · exact hd'
    · exact hd'
  obtain ⟨counts, hcounts, hget⟩ := getFolderUnreadCounts_spec hvalid' (h.tableKeys ▸ hids) unread
  have hstays : ∀ a b, parentOf s.table user_id a = some b → b ∈ (s.table.owned user_id).map Prod.fst := by
    intro a b hab
    rw [hparent] at hab
    obtain ⟨hout, hback⟩ := leads_cut.mp hab
    rw [hids']
    by_contra hnone
    exact hout (h.mended.missing a (mem_owned_of_parentOf hback) ⟨b, hback, hnone⟩)
  have hacyclic : Acyclic (Leads (parentOf s.table user_id)) := by
    rw [hparent]
    exact h.mended.acyclic fun a b hab ↦ mem_owned_of_parentOf hab
  refine ⟨s.table, s.folderList.map fun folder ↦ (folder.1, folder.2, (counts.get? folder.1).getD 0), ?_, ?_⟩
  · rw [getFolders, Table.getFoldersByUserId, Table.models, if_pos (List.all_eq_true.mpr hvalid), Option.bind_eq_bind,
      Option.bind_some, hfold, Option.bind_eq_bind, Option.bind_some, hcounts]
    rfl
  constructor
  · intro id hid
    obtain ⟨root, hreach, hroot⟩ := exists_end hstays hacyclic id
    refine ⟨root, ?_, hreach, hroot⟩
    rcases ReflTransGen.cases_tail hreach with rfl | ⟨b, -, hb⟩
    · exact hid
    · exact hstays b root hb
  · exact h.tableKeys
  · intro id hid
    rw [hchanged] at hid
    rw [h.table]
    simp [hid]
  · intro id hid
    rw [hchanged] at hid
    obtain ⟨f, hf, rfl⟩ := List.mem_map.mp (h.mended.cause id hid).1
    obtain ⟨hrow, huser⟩ := mem_owned.mp hf
    refine ⟨f.2, hrow, huser, ?_⟩
    rw [h.table, hrow, Option.map_some, if_pos hid]
  · exact fun id hid ↦ (h.mended.cause id ((hchanged id).mp hid)).2
  · intro id hid
    obtain ⟨parent, hparent', hnone⟩ := hid
    exact (hchanged id).mpr (h.mended.missing id (mem_owned_of_parentOf hparent') ⟨parent, hparent', hnone⟩)
  · intro id hcycle
    obtain ⟨parent, hparent', -⟩ := TransGen.head'_iff.mp hcycle
    obtain ⟨c, hc, hidc⟩ := h.mended.cycles id (mem_owned_of_parentOf hparent') hcycle
    refine ⟨c, ⟨hidc, (hchanged c).mpr hc⟩, ?_⟩
    rintro d ⟨hidd, hd⟩
    have hcd : ReflTransGen (Leads (parentOf t user_id)) d c := (reach_back hcycle hidd).trans hidc
    exact h.mended.once d ((hchanged d).mp hd) c hc (cycle_of_reach hcycle hidd) hcd
  · rw [List.map_map, howned]
    rfl
  · intro e he
    obtain ⟨folder, hfolder, rfl⟩ := List.mem_map.mp he
    rw [← howned] at hfolder
    obtain ⟨hrow, -⟩ := mem_owned.mp hfolder
    obtain ⟨below, hnodup, hmem, hsum⟩ := hget folder.1 (List.mem_map_of_mem hfolder)
    exact ⟨hrow, below, hnodup, hmem, by rw [hsum]; rfl⟩

end

/-- Two folders that are each other's parent, one below them, and one whose parent is gone. -/
def loopTable : Table := .ofList [
  (py "a", ⟨some (py "b"), py "u", some (py "A"), 0⟩), (py "b", ⟨some (py "a"), py "u", some (py "B"), 0⟩),
  (py "c", ⟨some (py "b"), py "u", some (py "C"), 0⟩), (py "d", ⟨some (py "x"), py "u", some (py "D"), 0⟩)]

theorem getFolders_heals_loop : ∃ t' response, getFolders loopTable (py "u") 1 (fun _ ↦ 1) = some (t', response) ∧
    Heals loopTable (py "u") 1 (fun _ ↦ 1) t' response := by
  have hall : ((loopTable.owned (py "u")).all fun e ↦ e.2.valid) = true := by decide
  exact getFolders_heals loopTable (py "u") 1 (fun _ ↦ 1) (List.all_eq_true.mp hall) (by decide)

example : ((getFolders loopTable (py "u") 1 fun _ ↦ 1).map fun r ↦ r.2.map fun e ↦ (e.2.1.parentId, e.2.2)) =
    some [(none, 3), (some (py "a"), 2), (some (py "b"), 1), (none, 1)] := by decide

end FourCE.Folders

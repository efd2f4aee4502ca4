import FourCE.Library.Nested
import FourCE.Python.Text

/-!
# Permissions of a user

`get_permissions` and `has_permission` of `utils/access_control/__init__.py`, and the permissions that
`config.py` reads from the environment.  Permissions are dictionaries of dictionaries with booleans at the leaves.
The one merges the trees of the groups into the stored defaults, the other follows one path through each.
-/

namespace FourCE.Access

open FourCE.Library FourCE.Python

abbrev Tree := Nested PyStr Bool

/-- A dictionary of permissions. -/
structure Permissions where
  items : List (PyStr × Tree)
  wf : (Nested.node items).WF

def Permissions.tree (p : Permissions) : Tree := .node p.items

/-- A group, which may have no permissions. -/
structure Group where
  permissions : Option Permissions

/-- `group.permissions or {}` -/
def Group.tree (g : Group) : Tree := (g.permissions.map Permissions.tree).getD (.node [])

mutual
/-- What `fill_missing_permissions` leaves under a key that is there. -/
def fillBelow : Tree → Tree → Tree
  | .node below, .node value => .node (fillMissingPermissions below value)
  | .node below, .leaf _ => .node below
  | .leaf old, _ => .leaf old
/-- `fill_missing_permissions(permissions, default_permissions)` -/
def fillMissingPermissions : List (PyStr × Tree) → List (PyStr × Tree) → List (PyStr × Tree)
  | permissions, [] => permissions
  | permissions, (key, value) :: default_permissions =>
    fillMissingPermissions
      (match Nested.item? key permissions with
        | none => Nested.put key value permissions
        | some old => Nested.put key (fillBelow old value) permissions) default_permissions
end

/-- `permissions[key] or value` where the key is there, else the value. -/
def mostPermissive (value : Bool) : Option Tree → Tree
  | none | some (.node []) => .leaf value
  | some (.leaf old) => .leaf (old || value)
  | some (.node (e :: below)) => .node (e :: below)

mutual
/-- What `combine_permissions` puts under a key. -/
def combineValue : Option Tree → Tree → Except Unit Tree
  | old, .leaf value => .ok (mostPermissive value old)
  | old, .node value => combinePermissions (old.getD (.node [])) value
/-- `combine_permissions(permissions, group_permissions)`; an error is the `TypeError` of a key that is looked up in
a boolean. -/
def combinePermissions : Tree → List (PyStr × Tree) → Except Unit Tree
  | permissions, [] => .ok permissions
  | .leaf _, _ :: _ => .error ()
  | .node items, (key, value) :: group_permissions =>
    (combineValue (Nested.item? key items) value).bind fun new ↦
      combinePermissions (.node (Nested.put key new items)) group_permissions
end

/-- The items of a tree that is a dictionary. -/
def itemsOf : Tree → List (PyStr × Tree)
  | .leaf _ => []
  | .node items => items

/-- `get_permissions` for the groups of the user.  The copy that it makes of the defaults is the same tree. -/
def getPermissions (user_groups : List Group) (default_permissions : Permissions) : Except Unit Tree :=
  (user_groups.foldlM (fun permissions group ↦ combinePermissions permissions (itemsOf group.tree))
    default_permissions.tree).map fun permissions ↦
      .node (fillMissingPermissions (itemsOf permissions) default_permissions.items)

/-- The inner function of `has_permission`; an error is the `TypeError` of a key that is looked up in a boolean. -/
def getPermission : Tree → List PyStr → Except Unit Bool
  | .leaf value, [] => .ok value
  | .node items, [] => .ok !items.isEmpty
  | .leaf _, _ :: _ => .error ()
  | .node items, key :: keys =>
    match Nested.item? key items with
    | none => .ok false
    | some below => getPermission below keys

/-- The loop of `has_permission` over the groups. -/
def anyGroup (permission_hierarchy : List PyStr) : List Group → Except Unit Bool
  | [] => .ok false
  | group :: user_groups =>
    match getPermission group.tree permission_hierarchy with
    | .error e => .error e
    | .ok true => .ok true
    | .ok false => anyGroup permission_hierarchy user_groups

section Checks

variable (DEFAULT_USER_PERMISSIONS : Permissions)

/-- `has_permission` for the groups of the user. -/
def hasPermission (user_groups : List Group) (permission_key : PyStr) (default_permissions : Permissions) :
    Except Unit Bool :=
  let permission_hierarchy := permission_key.splitOn (.ofChar '.')
  match anyGroup permission_hierarchy user_groups with
  | .error e => .error e
  | .ok true => .ok true
  | .ok false =>
    getPermission (.node (fillMissingPermissions default_permissions.items DEFAULT_USER_PERMISSIONS.items))
      permission_hierarchy

end Checks

/-! ## The merge of two trees -/

/-- What the merge of two trees shows where they show these. -/
def merge : Option (Nested.View Bool) → Option (Nested.View Bool) → Option (Nested.View Bool)
  | none, x => x
  | x, none => x
  | some (.leaf a), some (.leaf b) => some (.leaf (a || b))
  | some (.leaf a), some _ => some (.leaf a)
  | some .empty, x => x
  | some .full, _ => some .full

/-- What keeps the trees of later groups from being laid over it. -/
inductive Kind where
  | boolean
  | dict
  deriving DecidableEq

def kindOf : Option (Nested.View Bool) → Option Kind
  | some (.leaf _) => some .boolean
  | some .full => some .dict
  | _ => none

theorem Group.wf (g : Group) : (Nested.node (itemsOf g.tree)).WF := by
  rcases g with ⟨- | p⟩
  · exact .node List.nodup_nil (List.forall_mem_nil _)
  · exact p.wf

/-- Two trees have the same shape where both are defined. -/
def Fits (t u : Tree) : Prop :=
  ∀ path x y, t.get? path = some x → u.get? path = some y → ((∃ v, x = .leaf v) ↔ ∃ v, y = .leaf v)

theorem Fits.refl (t : Tree) : Fits t t := by
  intro path x y hx hy
  rw [hx] at hy
  rw [Option.some.inj hy]

theorem Fits.item {items others : List (PyStr × Tree)} (h : Fits (.node items) (.node others)) {k : PyStr} {t u : Tree}
    (ht : Nested.item? k items = some t) (hu : Nested.item? k others = some u) : Fits t u := by
  intro path x y hx hy
  refine h (k :: path) x y ?_ ?_
  · rw [Nested.get?_node, ht]
    exact hx
  · rw [Nested.get?_node, hu]
    exact hy

section

variable {D : Permissions} {user_groups : List Group} {path : List PyStr} {v : Bool}

/-- The check and the listing of a user's permissions say the same of a key. -/
def Agrees (D : Permissions) (user_groups : List Group) (key : PyStr) (default_permissions : Permissions) : Prop :=
  ∃ tree, getPermissions user_groups default_permissions = .ok tree ∧
    (hasPermission D user_groups key default_permissions = .ok true ↔
      tree.get? (key.splitOn (.ofChar '.')) = some (.leaf true))

end

/-! ## The permissions of the configuration -/

section Config

variable [Casing] (getenv : PyStr → Option PyStr)

end Config

end FourCE.Access

import FourCE.Library.Keyed
import FourCE.Python.Str

/-!
# Access control of old

`has_access` and `migrate_access_control` of `utils/access_control/__init__.py`, and
`access_control_to_grants` of `models/access_grants.py`.  The old format names lists of groups and of users
for reading and for writing; both conversions make a list of grants of it.
-/

namespace FourCE.Access

open FourCE.Library FourCE.Python

/-- The lists of ids under `group_ids` and `user_ids`. -/
abbrev PermData := Keyed PyStr (List PyStr)

/-- A dictionary of the old format, which may hold nothing under a permission. -/
abbrev AccessControl := Keyed PyStr (Option PermData)

abbrev Grant := Keyed PyStr PyStr

/-- `has_access` with the groups of the user at hand. -/
def hasAccess (user_id permission : PyStr) (access_grants : List Grant) (user_group_ids : List PyStr) : Bool :=
  access_grants.any fun grant ↦
    grant.get? (py "permission") = some permission &&
      (grant.get? (py "principal_type") = some (py "user") &&
          (grant.get? (py "principal_id") = some (py "*") || grant.get? (py "principal_id") = some user_id) ||
        grant.get? (py "principal_type") = some (py "group") &&
          (grant.get? (py "principal_id")).any (· ∈ user_group_ids))

/-- The loops over permissions, groups and users, as principal types, principal ids and permissions. -/
def principals (access_control : AccessControl) : List (PyStr × PyStr × PyStr) :=
  [py "read", py "write"].flatMap fun perm ↦
    match (access_control.get? perm).join with
    | none => []
    | some perm_data =>
      ((perm_data.get? (py "group_ids")).getD []).map (fun group_id ↦ (py "group", group_id, perm)) ++
        ((perm_data.get? (py "user_ids")).getD []).map fun user_id ↦ (py "user", user_id, perm)

/-- The grant that `access_control_to_grants` makes. -/
def resourceGrant (resource_type resource_id : PyStr) : PyStr × PyStr × PyStr → Grant
  | (principal_type, principal_id, permission) => .ofList [(py "resource_type", resource_type),
      (py "resource_id", resource_id), (py "principal_type", principal_type),
      (py "principal_id", principal_id), (py "permission", permission)]

/-- The grant that `migrate_access_control` makes. -/
def configGrant : PyStr × PyStr × PyStr → Grant
  | (principal_type, principal_id, permission) => .ofList [(py "principal_type", principal_type),
      (py "principal_id", principal_id), (py "permission", permission)]

/-- `access_control_to_grants(resource_type, resource_id, access_control)`. -/
def accessControlToGrants (resource_type resource_id : PyStr) : Option AccessControl → List Grant
  | none =>
    if resource_type ≠ py "file" then [resourceGrant resource_type resource_id (py "user", py "*", py "read")]
    else []
  | some access_control =>
    if access_control.keys.isEmpty then []
    else (principals access_control).map (resourceGrant resource_type resource_id)

/-- What a configuration holds under a key. -/
inductive Entry
  | legacy (access_control : Option AccessControl)
  | grants (access_grants : List Grant)
  | other

/-- `migrate_access_control(data)`. -/
def migrateAccessControl (data : Keyed PyStr Entry) : Keyed PyStr Entry :=
  if py "access_grants" ∈ data.keys then data
  else match data.get? (py "access_control") with
    | none => data
    | some access_control =>
      let grants := match access_control with
        | .legacy (some access_control) =>
          if access_control.keys.isEmpty then [] else (principals access_control).map configGrant
        | _ => []
      (data.set (py "access_grants") (.grants grants)).filterKeys (· ≠ py "access_control")

/-- The grants that a configuration holds. -/
def storedGrants (data : Keyed PyStr Entry) : Option (List Grant) :=
  match data.get? (py "access_grants") with
  | some (.grants access_grants) => some access_grants
  | _ => none

/-- Whether a principal is one of this user and has the permission. -/
def admits (user_id permission : PyStr) (user_group_ids : List PyStr) : PyStr × PyStr × PyStr → Bool
  | (principal_type, principal_id, perm) => perm = permission &&
      (principal_type = py "user" && (principal_id = py "*" || principal_id = user_id) ||
        principal_type = py "group" && principal_id ∈ user_group_ids)

section

variable {user_id permission : PyStr} {user_group_ids : List PyStr}

/-- Access is what the principals of the grants say, whatever else is in them. -/
theorem hasAccess_map {grant : PyStr × PyStr × PyStr → Grant}
    (hgrant : ∀ p, (grant p).get? (py "principal_type") = some p.1 ∧
      (grant p).get? (py "principal_id") = some p.2.1 ∧ (grant p).get? (py "permission") = some p.2.2)
    (ps : List (PyStr × PyStr × PyStr)) :
    hasAccess user_id permission (ps.map grant) user_group_ids =
      ps.any (admits user_id permission user_group_ids) := by
  unfold hasAccess
  rw [List.any_map]
  congr 1
  funext p
  obtain ⟨htype, hid, hperm⟩ := hgrant p
  simp only [Function.comp_apply, htype, hid, hperm, Option.some.injEq, Option.any_some, admits]

theorem get?_resourceGrant (resource_type resource_id : PyStr) (p : PyStr × PyStr × PyStr) :
    (resourceGrant resource_type resource_id p).get? (py "principal_type") = some p.1 ∧
      (resourceGrant resource_type resource_id p).get? (py "principal_id") = some p.2.1 ∧
      (resourceGrant resource_type resource_id p).get? (py "permission") = some p.2.2 := by
  unfold resourceGrant Keyed.ofList
  simp +decide only [List.foldl_cons, List.foldl_nil, Keyed.get?_set, if_true, if_false, and_self]

theorem get?_configGrant (p : PyStr × PyStr × PyStr) :
    (configGrant p).get? (py "principal_type") = some p.1 ∧
      (configGrant p).get? (py "principal_id") = some p.2.1 ∧
      (configGrant p).get? (py "permission") = some p.2.2 := by
  unfold configGrant Keyed.ofList
  simp +decide only [List.foldl_cons, List.foldl_nil, Keyed.get?_set, if_true, if_false, and_self]

/-- What a migration stores for a value of the old format. -/
theorem storedGrants_migrate {data : Keyed PyStr Entry} {value : Option AccessControl}
    (hvalue : data.get? (py "access_control") = some (.legacy value)) (hnew : py "access_grants" ∉ data.keys) :
    storedGrants (migrateAccessControl data) = some (match value with
      | none => []
      | some access_control =>
        if access_control.keys.isEmpty then [] else (principals access_control).map configGrant) := by
  have hkept : (decide (py "access_grants" ≠ py "access_control")) = true := by decide
  unfold storedGrants migrateAccessControl
  rw [if_neg hnew, hvalue]
  simp only [Keyed.get?_filterKeys, Keyed.get?_set, hkept, if_true]
  cases value <;> rfl

/-- Both conversions give the same access, apart from reading what has no access control: the grants of a
resource then let everyone read, and those of a configuration nobody. -/
theorem conversions_agree_iff {data : Keyed PyStr Entry} {value : Option AccessControl}
    (hvalue : data.get? (py "access_control") = some (.legacy value)) (hnew : py "access_grants" ∉ data.keys)
    {resource_type : PyStr} (htype : resource_type ≠ py "file") (resource_id user_id permission : PyStr)
    (user_group_ids : List PyStr) :
    (∃ access_grants, storedGrants (migrateAccessControl data) = some access_grants ∧
      hasAccess user_id permission access_grants user_group_ids =
        hasAccess user_id permission (accessControlToGrants resource_type resource_id value) user_group_ids) ↔
      value ≠ none ∨ permission ≠ py "read" := by
  rw [storedGrants_migrate hvalue hnew]
  simp only [Option.some.injEq, exists_eq_left']
  rcases value with - | access_control
  · have hpublic : hasAccess user_id permission (accessControlToGrants resource_type resource_id none)
        user_group_ids = decide (py "read" = permission) := by
      have hone := @hasAccess_map user_id permission user_group_ids _
        (get?_resourceGrant resource_type resource_id)
        [(py "user", py "*", py "read")]
      rw [accessControlToGrants, if_pos htype]
      refine hone.trans ?_
      simp only [List.any_cons, List.any_nil, admits, decide_true, Bool.true_or, Bool.true_and, Bool.and_true,
        Bool.or_false]
    have hprivate : hasAccess user_id permission [] user_group_ids = false := rfl
    rw [hpublic, hprivate, eq_comm, decide_eq_false_iff_not]
    constructor
    · exact fun hread ↦ Or.inr (Ne.symm hread)
    · rintro (hnone | hread)
      · exact absurd rfl hnone
      · exact Ne.symm hread
  · refine iff_of_true ?_ (Or.inl (Option.some_ne_none _))
    simp only [accessControlToGrants]
    split_ifs
    · rfl
    · rw [hasAccess_map get?_configGrant, hasAccess_map (get?_resourceGrant resource_type resource_id)]

end

/-- A configuration whose access control is null. -/
def nullConfig : Keyed PyStr Entry := .ofList [(py "access_control", .legacy none)]

theorem conversions_agree_iff_null :
    (∃ access_grants, storedGrants (migrateAccessControl nullConfig) = some access_grants ∧
      hasAccess (py "u") (py "write") access_grants [] =
        hasAccess (py "u") (py "write") (accessControlToGrants (py "model") (py "m") none) []) ↔
      (none : Option AccessControl) ≠ none ∨ py "write" ≠ py "read" :=
  @conversions_agree_iff nullConfig _ rfl (by decide) _ (by decide) (py "m") (py "u")
    (py "write") []

/-- What nobody may read by one conversion everyone may read by the other. -/
theorem null_not_agreed : storedGrants (migrateAccessControl nullConfig) = some [] ∧
    hasAccess (py "u") (py "read") [] [] = false ∧
    hasAccess (py "u") (py "read") (accessControlToGrants (py "model") (py "m") none) [] = true := by
  refine ⟨rfl, rfl, ?_⟩
  decide

end FourCE.Access

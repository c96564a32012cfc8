import CodeAudit.Data.Table

/-! Roles and what they permit. A role made from a parent takes over what the parent permits at that
time. A superuser may do everything. -/

namespace CodeAudit.Access

inductive Permission where
  | admin | read | write | delete | manageUsers | viewAuditLogs | manageRoles | manageSettings | runAnalysis
  | viewReports | exportData | managePlugins
deriving DecidableEq

namespace Permission

def all : List Permission := [
  .admin, .read, .write, .delete, .manageUsers, .viewAuditLogs, .manageRoles, .manageSettings,
  .runAnalysis, .viewReports, .exportData, .managePlugins]

def name : Permission → String
  | .admin => "admin"
  | .read => "read"
  | .write => "write"
  | .delete => "delete"
  | .manageUsers => "manage_users"
  | .viewAuditLogs => "view_audit_logs"
  | .manageRoles => "manage_roles"
  | .manageSettings => "manage_settings"
  | .runAnalysis => "run_analysis"
  | .viewReports => "view_reports"
  | .exportData => "export_data"
  | .managePlugins => "manage_plugins"

def ofValue (v : Value) : Outcome Permission :=
  match all.find? fun p => (Value.text p.name).equals v with
  | some p => .ok p
  | none => .error (.badValue (v.literal ++ " is not a valid Permission"))

end Permission

def permissionTexts (ps : List Permission) : Value :=
  .texts ((ps.map Permission.name).mergeSort fun a b => decide (a ≤ b))

structure Role where
  name : String
  description : String
  permissions : List Permission
  parent : Option String := none
deriving DecidableEq

def Role.toValue (r : Role) : Value := .object [
  ("name", r.name), ("description", r.description),
  ("permissions", permissionTexts r.permissions), ("inherits_from", .ofText? r.parent)]

inductive RoleError where
  | exists (name : String)
  | noParent (name : String)
  | missing (name : String)
  | isParent (name : String)

def RoleError.message : RoleError → String
  | .exists name => "Le rôle " ++ name ++ " existe déjà"
  | .noParent name => "Le rôle parent " ++ name ++ " n'existe pas"
  | .missing name => "Le rôle " ++ name ++ " n'existe pas"
  | .isParent name => "Le rôle " ++ name ++ " est utilisé comme parent"

abbrev Roles (κ : Type) := Keyed κ Role

namespace Roles

variable {κ : Type} [Label κ] (roles : Roles κ)

/-- The role that a new role takes permissions over from. No name, or an empty one, stands for
none. -/
def parentOf (parent : Option κ) : Except RoleError (Option Role) :=
  match parent.filter fun p => !Label.isBlank p with
  | none => .ok none
  | some p =>
    match roles.get? p with
    | some r => .ok (some r)
    | none => .error (.noParent (Label.shown p))

variable (name : κ)

def inheritance (parent : Option κ) : Except RoleError (List Permission) :=
  if roles.has name then .error (.exists (Label.shown name))
  else do return (← roles.parentOf parent).elim [] Role.permissions

def add (description : String) (permissions : List Permission) (parent : Option κ) : Except RoleError (Roles κ) := do
  let inherited ← roles.inheritance name parent
  return roles.put name {
    name := Label.shown name, description, parent := parent.map Label.shown
    permissions := (permissions ++ inherited).eraseDups }

def remove : Except RoleError (Roles κ) :=
  if !roles.has name then .error (.missing (Label.shown name))
  else if roles.any fun e => e.2.parent.any (Label.isText name) then .error (.isParent (Label.shown name))
  else .ok (roles.erase name)

def permissionsOf : Except RoleError (List Permission) :=
  match roles.get? name with
  | some r => .ok r.permissions
  | none => .error (.missing (Label.shown name))

def update (permissions : List Permission) : Except RoleError (Roles κ) :=
  match roles.get? name with
  | some r => .ok (roles.put name { r with permissions := permissions.eraseDups })
  | none => .error (.missing (Label.shown name))

def grants (p : Permission) : Bool := (roles.get? name).any fun r => r.permissions.contains p

def standard : Roles String := [
  ("admin", ⟨"admin", "Administrateur système avec tous les droits", Permission.all, none⟩),
  ("analyst", ⟨"analyst", "Analyste avec accès aux fonctionnalités d'analyse",
    [.read, .runAnalysis, .viewReports, .exportData], none⟩),
  ("auditor", ⟨"auditor", "Auditeur avec accès en lecture seule",
    [.read, .viewAuditLogs, .viewReports], none⟩),
  ("user", ⟨"user", "Utilisateur standard", [.read, .runAnalysis], none⟩)]

end Roles

structure Duty where
  name : Value
  permissions : Value

structure User where
  superuser : Value
  duties : List Duty

namespace User

variable (u : User)

def hasRole (name : Value) : Bool := u.duties.any fun d => d.name.equals name

def isAdmin : Value := if u.superuser.truthy then u.superuser else .bool (u.hasRole "admin")

def anyPermits (permission : Value) : List Duty → Outcome Bool
  | [] => .ok false
  | d :: rest => do if ← permission.occursIn d.permissions then return true else anyPermits permission rest

def hasPermission (permission : Value) : Outcome Bool :=
  if u.superuser.truthy then .ok true else anyPermits permission u.duties

end User

end CodeAudit.Access

import CodeAudit.Time.DateTime

/-! Records of the database with an audit trail. A record is deleted by a mark, and a change can be
kept as a new version. -/

namespace CodeAudit

def Versioned.columns : List String := [
  "id", "created_at", "updated_at", "created_by", "updated_by", "deleted_at", "deleted_by", "version",
  "previous_version", "name", "note"]

def Versioned.tableName : String := "__table__"

/-- The names of the table and the operations of a record. A value that is put under such a name
stands in the way of them. -/
def Versioned.operations : List String := [
  tableName, "to_dict", "update", "soft_delete", "restore", "create_version"]

def Versioned.fixedNames : List String := ["__class__", "__dict__"]

structure Versioned where
  values : Entries
  hidden : List (String × Value) := []

namespace Versioned

def ofEntries (given : Entries) : Versioned :=
  { values := columns.map fun name => (name, (given.lookup name).getD .null) }

variable (r : Versioned)

def get (name : String) : Value := (r.values.lookup name).getD .null

def put (r : Versioned) (name : String) (v : Value) : Versioned := { r with values := Entries.put name v r.values }

def checkCall (operation : String) : Outcome Unit :=
  match r.hidden.lookup operation with
  | some v => .error (v.cannot "is not callable")
  | none => .ok ()

def checkTable : Outcome Unit :=
  match r.hidden.lookup tableName with
  | some v => .error (v.lacks "columns")
  | none => .ok ()

def isDeleted : Bool :=
  match r.get "deleted_at" with
  | .null => false
  | _ => true

def toValue : Outcome Value := do
  r.checkCall "to_dict"
  r.checkTable
  return .object (r.values ++ [("is_deleted", .bool r.isDeleted)])

/-- Puts values into columns. Names that are no columns are passed over, but the mark of a deletion
cannot be set this way. -/
def update (r : Versioned) : Entries → Outcome Unit × Versioned
  | [] => (.ok (), r)
  | (name, v) :: rest =>
    if name = "is_deleted" then (.error (.noAttribute "can't set attribute 'is_deleted'"), r)
    else if fixedNames.contains name then
      (.error (.wrongType (name ++ " must be set to a class, not '" ++ v.kind ++ "' object")), r)
    else if columns.contains name then update (r.put name v) rest
    else if operations.contains name then update { r with hidden := (name, v) :: r.hidden } rest
    else update r rest

def delete (now : Time.DateTime) (user : Value) : Versioned := (r.put "deleted_at" now.text).put "deleted_by" user

def restore : Versioned := (r.put "deleted_at" .null).put "deleted_by" .null

def ownColumns : List String := ["id", "created_at", "updated_at", "version", "previous_version"]

def newVersion (version user : Value) : Versioned :=
  let kept := ofEntries (r.values.filter fun e => !ownColumns.contains e.1)
  (((kept.put "previous_version" (r.get "id")).put "version" version).put "created_by" user).put
    "updated_by" user

end Versioned

end CodeAudit

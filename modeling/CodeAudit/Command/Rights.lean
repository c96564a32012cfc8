import CodeAudit.Access.Role
import CodeAudit.Command.Request
import CodeAudit.Guard
import CodeAudit.Net.Url
import CodeAudit.Server
import CodeAudit.Time.Format

/-! Requests for checks on input. -/

namespace CodeAudit.Command

def validate (directory : String) : Query := fun input => do
  match (← input.member "what").display with
  | "string" =>
    return ← Guard.checkText (← input.member "value") (field input "max_length" .null)
  | "path" => return ← Guard.checkPath directory (← input.member "value")
  | "html" =>
    let .text s ← input.member "value" | throw badCall
    return Guard.cleanHtml s
  | "json" =>
    let value ← input.member "value"
    let required ← input.member "required"
    let names ← if value matches .object _ then required.parts else pure []
    Guard.checkDocument (Guard.limitOf .null) value names
    return .null
  | "decorator" =>
    let args ← (← input.member "args").parts
    let named ← (field input "kwargs" (.object [])).entries
    Guard.checkCall args named
    return .list [.list args, .object named]
  | other => throw (.missingKey other)

def fieldCheck : Query := fun input => do
  let what := (← input.member "what").display
  let args ← (← input.member "args").parts
  let onText := fun (check : String → Bool) => do
    let [.text s] := args | throw badCall
    return .bool (check s)
  let onChars := fun (check : Chars → Bool) => onText fun s => check s.toList
  match what with
  | "validate_email" => onChars Guard.isEmail
  | "validate_phone" => onChars Guard.isPhone
  | "validate_username" => onChars Guard.isUsername
  | "validate_password" => onChars Guard.isPassword
  | "validate_url" =>
    let [v] := args | throw badCall
    return .bool (match v with | .text s => Net.isFullAddress s | _ => false)
  | "check_sql_injection" => onText Guard.freeOfQueries
  | "check_xss" => onText Guard.freeOfScripts
  | "check_command_injection" => onText Guard.freeOfCommands
  | "check_path_traversal" => onText Guard.freeOfSteps
  | "sanitize_html" => if args.length = 1 then return .null else throw badCall
  | "validate_json" =>
    let [v] := args | throw badCall
    return .bool (Guard.isStructured v)
  | "validate_file_type" =>
    let [name, endings] := args | throw badCall
    return .bool (← Guard.hasEnding name (← endings.parts))
  | "validate_file_size" =>
    let [size, limit] := args | throw badCall
    return .bool (← size.atMost limit)
  | "validate_date_format" =>
    let [.text date, .text format] := args | throw badCall
    return .bool (← Time.Format.accepts format date)
  | other => throw (.noAttribute other)

/-! Requests about a server: its problems, its settings and its users. -/

open Config Server

def requestArguments (input : Value) (names : List (String × Option Value)) : Outcome (String → Value) := do
  mixed (← (field input "args" (.list [])).parts) (objectField input "kwargs") names

def problem : Query := fun input => do
  let kind := (← input.member "kind").display
  if kind = "BaseException" then
    let get ← requestArguments input [("message", none), ("code", some "error"),
      ("status_code", some (.int 500)), ("details", some .null)]
    return Problem.toValue ⟨get "message", get "code", get "status_code", detailsOf (get "details")⟩
  else
    match problemClasses.get? kind with
    | none => .error (.noAttribute kind)
    | some c =>
      let get ← requestArguments input [("message", c.message.map Value.text), ("details", some .null)]
      return Problem.toValue ⟨get "message", c.code, .nat c.status, detailsOf (get "details")⟩

def errorWords (args : List Value) : String :=
  match args with
  | [] => ""
  | [v] => v.display
  | vs => "(" ++ Text.join ", " (vs.map Value.literal) ++ ")"

def requestWords (input : Value) (names : List String) : Outcome (List Value) := do
  for (name, _) in objectField input "kwargs" do
    if !names.contains name then throw badCall
  (field input "args" (.list [])).parts

def answer (status body : Value) : Outcome Value := do
  if !Json.isFinite body then throw (.badValue "Out of range float values are not JSON compliant")
  let _ ← status.less (.int 200)
  return .object [("status", status), ("body", body)]

def errorAnswer : Query := fun input => do
  match (← input.member "kind").display with
  | "api" =>
    let get ← requestArguments input [("message", none), ("status_code", some (.int 400)),
      ("error_code", some .null), ("details", some .null)]
    answer (get "status_code")
      (errorBody (get "message") (get "error_code") (detailsOf (get "details")) "api_error")
  | "db" =>
    let args ← requestWords input ["code"]
    answer (.int 500) (databaseError (if args.isEmpty then "()" else errorWords args))
  | "other" => answer (.int 500) (internalError (errorWords (← requestWords input [])))
  | other => .error (.missingKey other)

def profile : Query := fun input => do
  let asked ← match field input "environment" .null with
    | .null => .ok ""
    | .text s => .ok s
    | v => if v.truthy then .error (v.lacks "lower") else .ok ""
  let env := environmentOf input
  let p := Profile.select asked env
  let values ← p.load env
  return .object [("class", p.name), ("values", .object values),
    ("database", Profile.databaseAddress values), ("redis", Profile.storeAddress values)]

def userRights : Play := fun input => do
  let duties ← (← (← input.member "roles").parts).mapM fun r => do
    return (⟨← r.member "name", ← r.member "permissions"⟩ : Access.Duty)
  let user : Access.User := { superuser := ← input.member "superuser", duties }
  return .object [
    ("admin", .value user.isAdmin),
    ("role", .value (.bool (user.hasRole (field input "role" .null)))),
    ("permission", .ofOutcome ((user.hasPermission (field input "permission" .null)).map .bool))]

structure Measured where
  monitor : Monitor := {}
  clock : Float

def tracked (m : Measured) (operation table : String) (seconds : Value) (fault : Option Fault) :
    Outcome Value × Measured :=
  let moved := moveClock m.clock (.object [("s", seconds)])
  let later := moved.toOption.getD m.clock
  let (answer, monitor) := m.monitor.trackQuery operation table (.float (later - m.clock))
  let result := match moved, answer, fault with
    | .error f, _, _ | .ok _, .error f, _ | .ok _, .ok (), some f => .error f
    | .ok _, .ok (), none => .ok seconds
  (result, { monitor, clock := later })

def algorithmsOf (op : Value) : Outcome (List String) :=
  let v := field op "algorithms" .null
  if v.truthy then do return if ← v.holds "HS256" then ["HS256"] else [] else .ok ["HS256"]

def headerNamed (name : String) (headers : Entries) : Option String :=
  (headers.find? fun e => lowerText e.1 = name).map (·.2.display)

/-! Requests about roles and about the log of events. -/

open Access Journal

def ofRoleError {α : Type} (r : Except RoleError α) : Outcome α := r.mapError fun e => .badValue e.message

def permissionsOf (op : Value) : Outcome (List Permission) := do
  return (← (← (← op.member "permissions").parts).mapM Permission.ofValue).eraseDups

abbrev RoleTable := Roles Key

def startRoles : RoleTable := Roles.standard.map fun (name, r) => (⟨name⟩, r)

def checkRole (name description parent : Value) : Outcome Unit :=
  let read := fun (place : String) => Config.Kind.readText [place]
  let all := Config.Kind.together [read "name" name, read "description" description,
    read "inherits_from" (if parent matches .null then "" else parent)]
  (discard all).mapError fun cs => .invalid (Config.Complaint.report "Role" cs)

def parentKey (v : Value) : Outcome (Option Key) :=
  match v with
  | .null => .ok none
  | v => if v.truthy then v.toKey.map some else .ok (some ⟨v⟩)

def roleOps (clock : Float) : Play := fun input =>
  playEvents clock input startRoles fun clock roles name op =>
    let time := momentOf clock
    let done (r : Outcome (RoleTable × Event)) : Outcome Value × List Event × RoleTable :=
      attempt ([], roles) r fun (next, event) => (.ok .null, [event], next)
    let asked : Outcome (Value × Permission × Bool) := do
      let held ← op.member "roles"
      let p ← Permission.ofValue (← op.member "p")
      return (held, p, ← (← held.parts).anyM fun name => do return roles.grants (← name.toKey) p)
    match name with
    | "add" => done (do
        let role ← op.member "name"
        let description := field op "description" ""
        let permissions ← permissionsOf op
        let parent := field op "inherits_from" .null
        let key ← role.toKey
        let parentName ← parentKey parent
        let _ ← ofRoleError (roles.inheritance key parentName)
        checkRole role description parent
        let next ← ofRoleError (roles.add key description.display permissions parentName)
        let held := ((next.get? key).map Role.permissions).getD []
        return (next, .note time "role_created" ("Nouveau rôle créé: " ++ role.display) "INFO"
          [("role_name", role), ("permissions", permissionTexts held)]))
    | "remove" => done (do
        let role ← op.member "name"
        return (← ofRoleError (roles.remove (← role.toKey)),
          .note time "role_deleted" ("Rôle supprimé: " ++ role.display) "WARNING"))
    | "update" => done (do
        let role ← op.member "name"
        let new ← permissionsOf op
        let key ← role.toKey
        let old ← ofRoleError (roles.permissionsOf key)
        return (← ofRoleError (roles.update key new),
          .note time "role_updated" ("Permissions du rôle " ++ role.display ++ " mises à jour") "INFO"
            [("role_name", role), ("old_permissions", permissionTexts old),
              ("new_permissions", permissionTexts new)]))
    | "perms" => ((do
        let held ← ofRoleError (roles.permissionsOf (← (← op.member "name").toKey))
        return permissionTexts held), [], roles)
    | "has" => (asked.map fun (_, _, isPermitted) => .bool isPermitted, [], roles)
    | "check" => attempt ([], roles) asked fun (held, p, isPermitted) =>
      if !isPermitted && (field op "raise_error" (.bool true)).truthy then
        (.error (.refused 403 "Permission insuffisante"),
          [.note time "permission_denied" "Tentative d'accès non autorisé" "WARNING"
            [("roles", held), ("required_permission", p.name)]], roles)
      else (.ok (.bool isPermitted), [], roles)
    | "roles" => (.ok (roles.document Role.toValue), [], roles)
    | _ => (.error (.missingKey name), [], roles)

def eventOf (time : Time.DateTime) (name : String) (op : Value) : Outcome Event := do
  let args ← op.member "args"
  match name with
  | "security_event" =>
    let get ← arguments args ["event_type", "description"] [("severity", "INFO"), ("details", .null)]
    return { time, kind := get "event_type", description := get "description",
             severity := get "severity", details := get "details" }
  | "authentication_attempt" =>
    let get ← arguments args ["username", "success", "ip_address", "user_agent"] []
    return loginAttempt time (get "username") (get "success") (get "ip_address") (get "user_agent")
  | "authorization_check" =>
    let get ← arguments args ["username", "resource", "action", "allowed"] []
    return rightsCheck time (get "username") (get "resource") (get "action") (get "allowed")
  | "security_violation" =>
    let get ← arguments args ["violation_type", "description"] [("ip_address", .null), ("username", .null)]
    return violation time (get "violation_type") (get "description") (get "ip_address") (get "username")
  | "configuration_change" =>
    let get ← arguments args ["component", "change_type", "old_value", "new_value", "username"] []
    return settingChange time (get "component") (get "change_type") (get "old_value") (get "new_value")
      (get "username")
  | _ => .error (.missingKey name)

def boundOf (v : Value) : Outcome (Option Time.DateTime) :=
  match v with
  | .text s => if s.isEmpty then .ok none else (Time.parse s).map some
  | .null => .ok none
  | _ => .error (.wrongType "fromisoformat: argument must be str")

def trailEntryOf (time : Time.DateTime) (name : String) (args : Value) : Outcome TrailEntry := do
  let success := ("success", Value.bool true)
  let user := ("user_id", Value.null)
  let address := ("ip_address", Value.null)
  match name with
  | "event" =>
    let arg ← arguments args ["event_type"] [user, ("details", .null), success]
    return {
      time, kind := arg "event_type", user := arg "user_id", success := arg "success"
      details := arg "details" }
  | "auth_attempt" =>
    let arg ← arguments args [] [user, ("email", .null), success, address, ("user_agent", .null)]
    return triedLogin time (arg "user_id") (arg "email") (arg "success") (arg "ip_address") (arg "user_agent")
  | "password_change" | "mfa_attempt" =>
    let arg ← arguments args ["user_id"] [success, address]
    let told := if name = "mfa_attempt" then triedSecondFactor else changedPassword
    return told time (arg "user_id") (arg "success") (arg "ip_address")
  | "password_reset" =>
    let arg ← arguments args [] [user, ("email", .null), success, address]
    return resetPassword time (arg "user_id") (arg "email") (arg "success") (arg "ip_address")
  | "permission_check" =>
    let arg ← arguments args ["user_id", "permission"] [("resource", .null), success]
    return checkedPermission time (arg "user_id") (arg "permission") (arg "resource") (arg "success")
  | "role_change" =>
    let arg ← arguments args ["user_id", "role", "action", "admin_id"] []
    return changedRole time (arg "user_id") (arg "role") (arg "action") (arg "admin_id")
  | "security_event" =>
    let arg ← arguments args ["event_type", "severity", "message"] [user, ("details", .null)]
    securityEntry time (arg "event_type") (arg "severity") (arg "message") (arg "user_id") (arg "details")
  | other => throw (.missingKey other)

structure OpenLog where
  text : Option String := some ""
  isLive : Bool := true

def journalOps (clock : Float) : Play := fun input => do
  let (answers, _) ← runTimed clock input ({} : OpenLog) (fun clock log name op =>
    match name with
    | "recent" => (.ofOutcome (do
        let get ← arguments (field op "args" (.object [])) []
          [("event_type", .null), ("severity", .null), ("limit", .int 100)]
        return .list (← recent (log.text.getD "") (get "event_type") (get "severity") (get "limit"))), log)
    | "raw" =>
      (change log (do return { log with text := some (← op.member "text").display })).map .ofOutcome id
    | "drop" =>
      if log.text.isSome then (.value .null, { text := none, isLive := false })
      else (.fault .noFile, log)
    | _ =>
      match (do
        let event ← eventOf (momentOf clock) name op
        return (event, ← event.logText)) with
      | .ok (event, text) => (withEvents (.value .null) [event],
          if log.isLive then { log with text := log.text.map (· ++ text) } else log)
      | .error f => (withEvents (.fault f) [], log)) id
  return .steps answers

end CodeAudit.Command

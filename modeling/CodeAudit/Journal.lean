import CodeAudit.Data.Table
import CodeAudit.Text.LetterCase
import CodeAudit.Time.DateTime

/-! Events of interest to security and the log of them, which is read back line by line. What stands
under a key that speaks of something secret is struck out. -/

namespace CodeAudit.Journal

def levels : Table Nat := [
  ("CRITICAL", 50), ("ERROR", 40), ("WARNING", 30), ("INFO", 20), ("DEBUG", 10), ("NOTSET", 0),
  ("FATAL", 50), ("WARN", 30)]

def levelName (n : Nat) : String := ((levels.find? fun e => e.2 = n).map (·.1)).getD ""

def leastLevel : Nat := 20

structure Event where
  time : Time.DateTime
  kind : Value
  description : Value
  severity : Value := "INFO"
  details : Value := .object []

namespace Event

def note (time : Time.DateTime) (kind description severity : String) (details : Entries := []) : Event :=
  { time, kind := kind, description := description, severity := severity,
    details := .object details }

def level (e : Event) : Outcome Nat :=
  match e.severity with
  | .text s =>
    match levels.get? s with
    | some n => .ok n
    | none => .error (.wrongType "level must be an integer")
  | _ => .error (.wrongType "level must be an integer")

def toEntries (e : Event) : Entries := [
  ("timestamp", e.time.text), ("event_type", e.kind), ("description", e.description),
  ("severity", e.severity), ("details", if e.details.truthy then e.details else .object [])]

def toValue (e : Event) : Value := .object e.toEntries

end Event

variable (time : Time.DateTime)

def loginAttempt (user success address agent : Value) : Event := {
  time, kind := "authentication_attempt"
  description := "Tentative d'authentification " ++
    (if success.truthy then "réussie" else "échouée") ++ " pour " ++ user.display
  severity := if success.truthy then "INFO" else "WARNING"
  details := .object [("username", user), ("ip_address", address), ("user_agent", agent)] }

def rightsCheck (user resource action allowed : Value) : Event := {
  time, kind := "authorization_check"
  description := "Vérification d'autorisation pour " ++ user.display ++ " sur " ++ resource.display
  severity := if allowed.truthy then "INFO" else "WARNING"
  details := .object [("username", user), ("resource", resource), ("action", action)] }

def violation (kind description address user : Value) : Event := {
  time, kind := "security_violation", description, severity := "ERROR"
  details := .object (("violation_type", kind) ::
    ([("ip_address", address), ("username", user)].filter fun e => e.2.truthy)) }

def settingChange (component change old new user : Value) : Event := {
  time, kind := "configuration_change"
  description := "Modification de configuration sur " ++ component.display
  details := .object [("component", component), ("change_type", change),
    ("old_value", old.display), ("new_value", new.display), ("username", user)] }

def stamp (level : Nat) : String :=
  (Time.Date.ofDays time.day).text ++ " " ++ Time.clockText time.secondOfDay ++ "," ++
    Time.padded 3 (time.micros / 1000 % 1000) ++ " - security_audit - " ++ levelName level ++ " - "

def Event.logText (e : Event) : Outcome String := do
  let level ← e.level
  return if level < leastLevel then ""
    else stamp e.time level ++ Json.write { indent := some 2 } e.toValue ++ "\n"

def write (log : String) (e : Event) : Outcome String := do return log ++ (← e.logText)

def fits (entry : Value) (key : String) (wanted : Value) : Outcome Bool :=
  if wanted.truthy then do return (← entry.member key).equals wanted else .ok true

def isWanted (kind severity entry : Value) : Outcome Bool := do
  if ← fits entry "event_type" kind then fits entry "severity" severity else return false

def collect (kind severity limit : Value) : List Value → List String → Outcome (List Value)
  | found, [] => .ok found
  | found, line :: rest => do
    match ← Json.document? line with
    | none => collect kind severity limit found rest
    | some entry =>
      if ← isWanted kind severity entry then
        let found := found ++ [entry]
        if ← (Value.nat found.length).atLeast limit then return found
        else collect kind severity limit found rest
      else collect kind severity limit found rest

def recent (log : String) (kind severity limit : Value) : Outcome (List Value) :=
  collect kind severity limit [] (Text.splitOn '\n' (Text.unifyNewlines log))

def secretWords : List String := ["password", "token", "secret", "key", "auth"]

def isSecret (key : String) : Bool := secretWords.any fun w => Text.occurs w (lowerText key)

def struckOut : Value := "[REDACTED]"

mutual

def sanitize : Value → Value
  | .object entries => .object (sanitizeEntries entries)
  | .list items => .list (sanitizeItems items)
  | v => v

def sanitizeItems : List Value → List Value
  | [] => []
  | v :: rest => sanitize v :: sanitizeItems rest

def sanitizeEntries : List (String × Value) → List (String × Value)
  | [] => []
  | (k, v) :: rest => (k, if isSecret k then struckOut else sanitize v) :: sanitizeEntries rest

end

structure Record where
  level : Nat
  message : String
  extra : Entries := []
  error : Option (String × String) := none

structure Sink where
  name : String
  least : Nat
  fields : Entries := []

def Sink.takes (s : Sink) (level : Nat) : Bool := 0 < level && s.least ≤ level

def Sink.entries (s : Sink) (r : Record) : Entries :=
  let base : Entries := [
    ("level", levelName r.level), ("logger", s.name), ("message", r.message)]
  let all := Entries.merge (Entries.merge base s.fields) r.extra
  match r.error with
  | none => all
  | some (kind, message) =>
    Entries.put "exception" (.object [("type", kind), ("message", message)]) all

def otherNames : List String := ["BASIC_FORMAT", "_STYLES"]

def severityLevel (severity : String) : Outcome Nat :=
  let name := upperText severity
  if otherNames.contains name then .error (.wrongType "level must be an integer")
  else .ok ((levels.get? name).getD leastLevel)

def securityRecord (kind description severity extra : Value) : Outcome Record := do
  let fields := [("event_type", kind), ("security_severity", severity)]
  let fields ← if extra.truthy then do
      pure (Entries.merge fields (← (← extra.pairs).mapM fun (k, v) => return (← k.textFor "lower", v)))
    else pure fields
  let level ← severityLevel (← severity.textFor "upper")
  return { level, message := description.display, extra := sanitizeEntries fields }

def runRecord (function : String) (seconds : Float) (failure : Option (String × String)) : Record :=
  let fields : Entries := [("execution_time", .float seconds), ("function", function)]
  match failure with
  | none => { level := 20, message := function ++ " executed successfully", extra := fields }
  | some (kind, words) => {
      level := 40, message := "Error in " ++ function ++ ": " ++ words
      extra := fields ++ [("error", .text words), ("error_type", .text kind)] }

/-! The server's trail of what users did. Every entry is a document on a line of its own, and one
line that cannot be understood spoils the whole reading. -/

open Time

structure TrailEntry where
  time : DateTime
  kind : Value
  user : Value := .null
  success : Value := .bool true
  details : Value := .object []

namespace TrailEntry

def toValue (e : TrailEntry) : Value := .object [
  ("timestamp", e.time.text), ("event_type", e.kind),
  ("user_id", if e.user.truthy then e.user.display else .null), ("success", e.success),
  ("details", if e.details.truthy then e.details else .object [])]

def line (e : TrailEntry) : String := Json.write {} e.toValue ++ "\n"

end TrailEntry

variable (time : DateTime)

def triedLogin (user email success address agent : Value) : TrailEntry := {
  time, kind := "auth_attempt", user, success
  details := .object [("email", email), ("ip_address", address), ("user_agent", agent)] }

variable (user success address : Value)

def changedPassword : TrailEntry :=
  { time, kind := "password_change", user, success, details := .object [("ip_address", address)] }

def resetPassword (user email success address : Value) : TrailEntry := {
  time, kind := "password_reset", user, success
  details := .object [("email", email), ("ip_address", address)] }

def triedSecondFactor : TrailEntry :=
  { time, kind := "mfa_attempt", user, success, details := .object [("ip_address", address)] }

def checkedPermission (user permission resource success : Value) : TrailEntry := {
  time, kind := "permission_check", user, success
  details := .object [("permission", permission), ("resource", resource)] }

def changedRole (user role action admin : Value) : TrailEntry := {
  time, kind := "role_change", user
  details := .object [("role", role), ("action", action), ("admin_id", admin.display)] }

def securityEntry (kind severity message user details : Value) : Outcome TrailEntry := do
  let more ← if details.truthy then
      match details with
      | .object entries => pure entries
      | v => throw (v.cannot "is not a mapping")
    else pure []
  return {
    time, kind := ("security_" ++ kind.display), user
    details := .object (Entries.merge [("severity", severity), ("message", message)] more) }

abbrev Trail := Option String

namespace Trail

variable (t : Trail)

def write (e : TrailEntry) : Trail := some (t.getD "" ++ e.line)

def linesOf (text : String) : List String :=
  let pieces := Text.splitOn '\n' (Text.unifyNewlines text)
  if pieces.getLast? = some "" then pieces.dropLast else pieces

def isBefore (a b : DateTime) : Outcome Bool :=
  if a.offset.isSome = b.offset.isSome then .ok (decide (a.toMicros < b.toMicros))
  else .error (.wrongType "can't compare offset-naive and offset-aware datetimes")

def isWithin (entry : Value) (first last : Option DateTime) : Outcome Bool := do
  let time ← match ← entry.member "timestamp" with
    | .text s => Time.parse s
    | _ => throw (.wrongType "fromisoformat: argument must be str")
  match first with
  | some t => if ← isBefore time t then return false
  | none => pure ()
  match last with
  | some t => if ← isBefore t time then return false
  | none => pure ()
  return true

def isOfUser (user kind : Value) (first last : Option DateTime) (entry : Value) : Outcome Bool := do
  if !(← entry.member "user_id").equals user.display then return false
  if kind.truthy then
    if !(← entry.member "event_type").equals kind then return false
  isWithin entry first last

def isOfSecurity (severity : Value) (first last : Option DateTime) (entry : Value) : Outcome Bool := do
  if !Text.startsWith "security_" (← (← entry.member "event_type").textFor "startswith") then return false
  if severity.truthy then
    let details ← entry.member "details"
    if !(← details.holds "severity") then return false
    if !(← details.member "severity").equals severity then return false
  isWithin entry first last

def select (wanted : Value → Outcome Bool) : List Value :=
  let read : Outcome (List Value) := do
    let text ← match t with
      | some text => pure text
      | none => throw .noFile
    (linesOf text).filterMapM fun line => do
      let entry ← Json.parse line
      return if ← wanted entry then some entry else none
  read.toOption.getD []

def last : Outcome Value :=
  match (t.map linesOf).bind List.getLast? with
  | some line => Json.parse line
  | none => .error (.badIndex "list index out of range")

end Trail

end CodeAudit.Journal

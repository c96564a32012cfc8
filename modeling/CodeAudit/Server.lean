import CodeAudit.Access.Token
import CodeAudit.Limit
import CodeAudit.Queue

/-! What a server reports: problems to its clients, and measures of how often and how long it asked
the database. -/

namespace CodeAudit.Server

structure Problem where
  message : Value
  code : Value
  status : Value
  details : Value

def detailsOf (v : Value) : Value := if v.truthy then v else .object []

structure ProblemClass where
  code : String
  status : Nat
  message : Option String := none

def problemClasses : Table ProblemClass := [
  ("ValidationException", ⟨"validation_error", 400, none⟩),
  ("NotFoundException", ⟨"not_found", 404, none⟩),
  ("CredentialsException", ⟨"invalid_credentials", 401, some "Identifiants invalides"⟩),
  ("PermissionDeniedException", ⟨"permission_denied", 403, some "Permission refusée"⟩),
  ("ConflictException", ⟨"conflict", 409, none⟩),
  ("RateLimitException", ⟨"rate_limit", 429, some "Trop de requêtes"⟩),
  ("ServiceUnavailableException",
    ⟨"service_unavailable", 503, some "Service temporairement indisponible"⟩)]

def Problem.toValue (p : Problem) : Value := .object [
  ("text", p.message.display), ("message", p.message), ("code", p.code), ("status", p.status),
  ("details", p.details)]

def errorBody (message code details : Value) (type : String) : Value :=
  .object [("error", .object [
    ("message", message), ("code", code), ("details", details), ("type", type)])]

def databaseError (words : String) : Value :=
  errorBody "Erreur de base de données" "DATABASE_ERROR"
    (.object [("error", words)]) "database_error"

def internalError (words : String) : Value :=
  errorBody "Erreur interne du serveur" "INTERNAL_ERROR"
    (.object [("error", words)]) "internal_error"

structure Duration where
  count : Nat := 0
  total : Value := .float 0
  least : Value := .float (1.0 / 0.0)
  most : Value := .float 0

def Duration.toValue (d : Duration) : Value := .object [
  ("count", .nat d.count), ("total_duration", d.total), ("min_duration", d.least), ("max_duration", d.most)]

structure Monitor where
  durations : Table Duration := []
  errors : Option (Keyed Key Nat) := none

namespace Monitor

def Duration.add (d : Duration) (v : Value) : Outcome Unit × Duration :=
  let d := { d with count := d.count + 1 }
  let added : Outcome Duration := do
    let total ← Value.arith "+" Num.add d.total v
    let d := { d with total }
    let d := if ← v.less d.least then { d with least := v } else d
    return if ← v.greater d.most then { d with most := v } else d
  match added with
  | .ok d => (.ok (), d)
  | .error f => (.error f, d)

def queryName (operation table : String) : String := "db." ++ operation ++ "." ++ table

variable (m : Monitor)

def trackQuery (operation table : String) (duration : Value) : Outcome Unit × Monitor :=
  let name := queryName operation table
  let (answer, d) := Duration.add ((m.durations.get? name).getD {}) duration
  (answer, { m with durations := m.durations.put name d })

def trackError (error : Value) : Outcome Unit × Monitor :=
  let errors := m.errors.getD []
  match error.toKey with
  | .ok key => (.ok (), { m with errors := some (errors.bump key) })
  | .error f => (.error f, { m with errors := some errors })

def toValue : Value :=
  .object (m.durations.map (fun (name, d) => (name, d.toValue)) ++
    (m.errors.map fun e => ("errors", e.document .nat)).toList)

end Monitor

end CodeAudit.Server

/-! The resources of the machine, the limits that a request to the server has to pass first, and the
answers to requests about analyses. -/

namespace CodeAudit.Resource

structure Quota where
  memory : Num
  processor : Num
  disk : Num

def quotas : Table Quota := [
  ("analysis", ⟨.int 500, .float 50, .int 1000⟩), ("ai", ⟨.int 1000, .float 75, .int 2000⟩)]

structure Reading where
  memory : Outcome Value
  processor : Value
  disk : Value

def megabytes (bytes : Value) : Outcome Value :=
  Value.arith "/" (fun a b => (a.div b).map .float) bytes (.int 1048576)

def within (q : Quota) (r : Reading) : Outcome Bool := do
  if ← (← megabytes (← r.memory)).greater (.ofNum q.memory) then return false
  if ← r.processor.greater (.ofNum q.processor) then return false
  if ← (← megabytes r.disk).greater (.ofNum q.disk) then return false
  return true

def isEnough (kind : Value) (r : Reading) : Bool :=
  match kind with
  | .text name =>
    match quotas.get? name with
    | some q => (within q r).toOption.getD false
    | none => false
  | _ => false

def usage (r : Reading) : Value :=
  let entries : Outcome Entries := do
    return [
      ("memory_mb", ← megabytes (← r.memory)), ("cpu_percent", r.processor), ("disk_mb", ← megabytes r.disk)]
  .object (entries.toOption.getD [])

end CodeAudit.Resource

namespace CodeAudit.Server

open Limit Time

structure Gate (T : Type) where
  limiter : WindowLimiter T String := .standard
  queue : Queue := {}
  hasResources : Bool := true

def requestKind : String := "api"

namespace Gate

variable {T : Type} [Seconds T]

def checkLimits (g : Gate T) (now : T) (client : String) : Outcome Unit × Gate T :=
  let (passes, limiter) := g.limiter.check now client requestKind
  let g := { g with limiter }
  if !passes then (.error (.refused 429 "Trop de requêtes"), g)
  else if !g.hasResources then (.error (.refused 503 "Ressources insuffisantes"), g)
  else (.ok (), g)

def analyses (now : DateTime) (client : Value) : Value := .object [("analyses", .list [.object [
  ("id", "1"), ("user_id", client), ("repositoryName", "example-repo"),
  ("status", "COMPLETED"), ("language", "python"),
  ("summary", "Analysis completed successfully"),
  ("metrics", .object [("code_quality", .int 85), ("security_score", .int 90)]), ("issues", .list []),
  ("suggestions", .list []), ("lines_of_code", .int 1000), ("complexity_score", .int 75),
  ("security_score", .int 85), ("performance_score", .int 80),
  ("created_at", (now.addMicros (-dayMicros)).text), ("updated_at", now.text)]])]

def figures : Value := .object [("data", .object [
  ("totalScans", .int 150), ("issuesFound", .int 45), ("issuesResolved", .int 30),
  ("averageResolutionTime", "2.5 days")])]

def status (id : Value) : Value := .object [("analysis_id", id), ("status", "pending")]

def wanted (request client : Value) : Outcome Value := do
  if !(← request.holds "code") then throw (.refused 400 "Code manquant")
  return .object [
    ("code", ← request.member "code"), ("client_id", client),
    ("options", ← request.fetch "options" (.object []))]

def analyze (g : Gate T) (now : T) (request client : Value) : Outcome Value × Gate T :=
  match wanted request client with
  | .error f => (.error (.refused 500 f.text), g)
  | .ok data =>
    let micros := Seconds.micros now
    (.ok (.object [
      ("analysis_id", (Queue.idAt micros)), ("status", "pending"),
      ("message", "Analyse en cours")]), { g with queue := g.queue.enqueue micros data })

end Gate

/-! The guard before the server: a request needs a token unless its path is excluded. -/

open Access

structure Response where
  status : Nat
  body : Value
  headers : Entries := []

def Response.toValue (r : Response) : Value := .object [
  ("status", .nat r.status), ("body", r.body), ("headers", .object r.headers)]

def Response.detail (status : Nat) (words : String) : Response := { status, body := .object [("detail", words)] }

structure Shield where
  excluded : List Value := []
  hasOrigins : Bool := false

namespace Shield

variable (s : Shield)

def headers : Entries := [
    ("x-xss-protection", .text "1; mode=block"), ("x-frame-options", .text "DENY"),
    ("x-content-type-options", .text "nosniff"), ("content-security-policy", .text (
      "default-src 'self'; script-src 'self' 'unsafe-inline' 'unsafe-eval'; style-src 'self' 'unsafe-inline'; " ++
      "img-src 'self' data:; font-src 'self'; connect-src 'self'")),
    ("referrer-policy", .text "strict-origin-when-cross-origin")] ++
  if s.hasOrigins then [("strict-transport-security", .text "max-age=31536000; includeSubDomains")] else []

def isExcluded (path : String) : Outcome Bool := do
  for start in s.excluded do
    match start with
    | .text start => if Text.startsWith start path then return true
    | v => throw (.wrongType ("startswith first arg must be str or a tuple of str, not " ++ v.kind))
  return false

def bearer (header : String) : Option String :=
  let scheme := header.toList.takeWhile (· ≠ ' ')
  let rest := header.toList.drop (scheme.length + 1)
  if lowerText (String.ofList scheme) = "bearer" && !rest.isEmpty then some (String.ofList rest) else none

variable (tokens : TokenService)

def pass (now : Int) (find : String → Option SignedToken)
    (path : String) (header : Option String) (next : Outcome Value) : Outcome Response := do
  if ← s.isExcluded path then return { status := 200, body := ← next }
  match header.bind bearer with
  | none => return .detail 401 "Identifiants invalides"
  | some text =>
    match ← tokens.decode now (find text) .null ["HS256"] with
    | none | some [] => return .detail 401 "Identifiants invalides"
    | some _ => return { status := 200, body := ← next, headers := s.headers }

def handle (now : Int) (find : String → Option SignedToken)
    (path : String) (header : Option String) (next : Outcome Value) : Response :=
  match s.pass tokens now find path header next with
  | .ok r => r
  | .error _ => .detail 500 "Erreur interne du serveur"

end Shield

end CodeAudit.Server

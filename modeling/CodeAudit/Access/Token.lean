import CodeAudit.Config.Schema
import CodeAudit.Digest
import CodeAudit.Journal
import CodeAudit.Vault

/-! Signed tokens: claims under a secret. How the time at which a token ends is compared with the
clock is for the reader of tokens to say. The one here compares whole seconds, so that a token is
good up to and including the second in which it expires. -/

namespace CodeAudit.Access

structure SignedToken where
  claims : Entries
  secret : String
  algorithm : String := "HS256"

inductive TokenFault where
  | expired
  | invalid
  | broken (f : Fault)

def secondOf (micros : Int) : Int := micros / 1000000

def minutes (n : Int) : Int := n * 60 * 1000000

def wholeClaim (v : Value) : Except TokenFault Int :=
  match v.toInt with
  | .ok n => .ok n
  | .error (.badValue _) => .error .invalid
  | .error f => .error (.broken f)

def checkClaim (claims : Entries) (name : String) (check : Value → Except TokenFault Unit) : Except TokenFault Unit :=
  match claims.lookup name with
  | some v => check v
  | none => .ok ()

def checkClaims (second : Int) (claims : Entries) : Except TokenFault Unit := do
  checkClaim claims "iat" fun v => do let _ ← wholeClaim v
  checkClaim claims "nbf" fun v => do if second < (← wholeClaim v) then throw .invalid
  checkClaim claims "exp" fun v => do if (← wholeClaim v) < second then throw .expired
  checkClaim claims "aud" fun v => if v.truthy then .error .invalid else .ok ()

def SignedToken.read (t : SignedToken) (now : Int) (secret : String)
    (algorithms : List String := ["HS256"]) : Except TokenFault Entries := do
  if !algorithms.contains t.algorithm || t.secret ≠ secret then throw .invalid
  checkClaims (secondOf now) t.claims
  return t.claims

/-- A reader of tokens: the claims of a token at a time and under a secret, or what is wrong with
it. -/
abbrev TokenReader := SignedToken → Int → String → Except TokenFault Entries

def TokenReader.wholeSeconds : TokenReader := fun t now secret => t.read now secret

def SignedToken.readWith (t : SignedToken) (now : Int) (secret : Value)
    (read : TokenReader := .wholeSeconds) : Except TokenFault Entries :=
  match secret with
  | .text s => read t now s
  | _ => .error .invalid

abbrev TokenList := List SignedToken

def isSignatureChar (c : Char) : Bool := c.isAlphanum || c == '+' || c == '/' || c == '-' || c == '_'

/-- What may follow a token without changing how its signature is read: the reader passes over
characters outside of the alphabet and stops at an equals sign. -/
def isFiller (s : Chars) : Bool :=
  let (front, back) := s.span (· != '=')
  !s.contains '.' && !front.any isSignatureChar &&
    (!back.isEmpty || (String.ofList s).utf8ByteSize % 4 != 1)

def namesToken : Chars → Bool
  | '$' :: d :: rest => d.isDigit || namesToken (d :: rest)
  | _ :: rest => namesToken rest
  | [] => false

def TokenList.find (tokens : TokenList) (text : String) : Option SignedToken :=
  match text.toList with
  | '$' :: d :: rest =>
    if d.isDigit && isFiller rest && !namesToken rest then tokens[d.toNat - '0'.toNat]? else none
  | _ => none

structure TokenService where
  secret : String := String.ofList (List.replicate 32 'k')
  made : Nat := 0

inductive TokenUse where
  | access | refresh | reset | verify

namespace TokenUse

def word : TokenUse → String
  | .access => "access"
  | .refresh => "refresh"
  | .reset => "reset"
  | .verify => "verify"

def lifetime : TokenUse → Int
  | .access => minutes 30
  | .refresh => minutes (7 * 24 * 60)
  | .reset => minutes (24 * 60)
  | .verify => minutes (48 * 60)

end TokenUse

namespace TokenService

variable (s : TokenService)

def secretOr (given : Value) : Outcome String :=
  if given.truthy then
    match given with
    | .text t => .ok t
    | _ => .error (.wrongType "Expected a string value")
  else .ok s.secret

variable (now : Int)

def create (data secret : Value) (lifetime : Int) : Outcome SignedToken × TokenService :=
  let lifetime := if lifetime = 0 then TokenUse.access.lifetime else lifetime
  match data, Time.later now lifetime with
  | .object entries, .ok last =>
    let claims := Entries.merge entries [
      ("exp", .int (secondOf last)), ("iat", .int (secondOf now)),
      ("jti", ("id" ++ natText (s.made + 1)))]
    ((s.secretOr secret).map fun secret => { claims, secret }, { s with made := s.made + 1 })
  | .object _, .error f | .list _, .error f => (.error f, s)
  | .list _, .ok _ => (.error (data.lacks "update"), s)
  | v, _ => (.error (v.lacks "copy"), s)

def issue (use : TokenUse) (subject : Value) (lifetime : Int) :
    Outcome SignedToken × TokenService := s.create now (.object [("sub", subject), ("type", use.word)]) .null lifetime

def decode (token : Option SignedToken) (secret : Value)
    (algorithms : List String) : Outcome (Option Entries) := do
  match token with
  | none => return none
  | some t =>
    match t.read now (← s.secretOr secret) algorithms with
    | .ok claims => return some claims
    | .error (.broken f) => .error f
    | .error _ => return none

end TokenService

structure TokenDesk where
  secret : String := "your-secret-key"

namespace TokenDesk

/-- Makes a token that is good for some microseconds; for a day if none are given. It has to end
within the calendar. -/
def issue (d : TokenDesk) (now : Int) (user : Value) (lifetime : Int) : Outcome SignedToken := do
  let lifetime := if lifetime = 0 then minutes (24 * 60) else lifetime
  let last ← Time.later now lifetime
  return {
    claims := [("sub", user), ("exp", .int (secondOf last)), ("iat", .int (secondOf now))]
    secret := d.secret }

def trouble : Fault := .refused 401 "Erreur d'authentification"

/-- The claims of a token that is good at a time. The last second of a token is over when any part
of it has passed. -/
def verify (d : TokenDesk) (now : Int) (token : Option SignedToken) : Outcome Value :=
  match token with
  | none => .error (.refused 401 "Token invalide")
  | some t =>
    match t.read now d.secret with
    | .ok claims =>
      match (do (← (Value.object claims).member "exp").less (.float (Time.secondsOfMicros now))) with
      | .ok false => .ok (.object claims)
      | .ok true | .error _ => .error trouble
    | .error (.broken _) => .error trouble
    | .error _ => .error (.refused 401 "Token invalide")

end TokenDesk

/-! Tokens with roles, for access or to get new tokens, signed with a secret from the vault that can
be replaced. -/

open Config Time

structure TokenClaims where
  subject : String
  expires : DateTime
  issued : DateTime
  kind : String
  roles : List String

def TokenClaims.toValue (c : TokenClaims) : Value := .object [
  ("sub", c.subject), ("exp", c.expires.text), ("iat", c.issued.text),
  ("type", c.kind), ("roles", .texts c.roles)]

def watershed : Num := .int 20000000000

def inSeconds : Nat → Num → Num
  | 0, n => n
  | fuel + 1, n =>
    if watershed.lt n.abs then
      match n.div (.int 1000) with
      | .ok x => inSeconds fuel (.float x)
      | .error _ => n
    else n

def momentOfSeconds (n : Num) : DateTime :=
  let most : Num := .int 300000000000000000000
  if most.lt n then { day := 2932896, micros := dayMicros - 1 }
  else if n.lt (.int (-300000000000000000000)) then { day := -719162, micros := 0 }
  else
    match inSeconds 8 n with
    | .int n => .ofMicros (n * 1000000) (some 0)
    | .float x => .ofMicros (microsOfSeconds x) (some 0)

def momentOfNum : Num → Option DateTime
  | .int n => some (momentOfSeconds (.int n))
  | .float x => if x.isNaN then none else some (momentOfSeconds (.float x))

variable (v : Value)

def momentOfClaim : Option DateTime :=
  match v with
  | .text s => (floatOfText? s).bind fun x => momentOfNum (.float x)
  | v => v.number?.bind momentOfNum

def claim {α : Type} (entries : Entries) (name : String) (read : Value → Option α) : Option α :=
  (entries.lookup name).bind read

def textClaim : Option String :=
  match Kind.readText [] v with
  | .ok (.text s) => some s
  | _ => none

def textsClaim : Option (List String) :=
  match v with
  | .list items => items.mapM textClaim
  | _ => none

def TokenClaims.ofEntries (entries : Entries) : Option TokenClaims := do
  return {
    subject := ← claim entries "sub" textClaim, expires := ← claim entries "exp" momentOfClaim
    issued := ← claim entries "iat" momentOfClaim, kind := ← claim entries "type" textClaim
    roles := ← claim entries "roles" textsClaim }

structure TokenKeeper where
  secret : Value
  vault : Vault

namespace TokenKeeper

def secretNamed (v : Vault) (name : String) : Outcome (Option Value) := do
  let found ← v.get name .null
  return if found.truthy then some found else none

def hasPassword (password hashed : Value) : Bool :=
  match password, hashed with
  | .text password, .text hashed => Digest.Password.matchesDigest password.toUTF8.toList hashed.toList
  | _, _ => false

def start (vault : Vault) : Outcome TokenKeeper := do
  match ← secretNamed vault "JWT_SECRET" with
  | some secret => return { secret, vault }
  | none => .error (.badValue "JWT_SECRET non défini")

def accessTime : Int := minutes 30

def refreshTime : Int := minutes (7 * 24 * 60)

def readUser (user roles : Value) : Outcome (Value × Value) :=
  match Kind.readText ["sub"] user, Kind.texts.read ["roles"] roles with
  | .ok user, .ok roles => .ok (user, roles)
  | .error cs, .ok _ | .ok _, .error cs => .error (.invalid (Complaint.report "TokenPayload" cs))
  | .error cs, .error ds => .error (.invalid (Complaint.report "TokenPayload" (cs ++ ds)))

variable (k : TokenKeeper)

def issue (kind : String) (lifetime now : Int) (user roles : Value) : Outcome SignedToken := do
  let last ← later now lifetime
  let (user, roles) ← readUser user roles
  let .text secret := k.secret | throw (.wrongType "Expected a string value")
  return {
    claims := [
      ("sub", user), ("exp", .int (secondOf last)), ("iat", .int (secondOf now)),
      ("type", kind), ("roles", roles)]
    secret }

def issueAccess : Int → Value → Value → Outcome SignedToken := k.issue "access" accessTime

def issueRefresh : Int → Value → Value → Outcome SignedToken := k.issue "refresh" refreshTime

/-- The answer to a token that is not valid: the class of that fault is itself unknown. -/
def unknownFault : Fault := .noAttribute "the fault of a token that is not valid has no class"

/-- What a token claims, if it is good at a time and of the right kind. One that has expired is
refused; anything else is a fault. -/
def verify (now : Int) (token : Option SignedToken) (kind : Value)
    (read : TokenReader := .wholeSeconds) : Outcome TokenClaims :=
  match token with
  | none => .error unknownFault
  | some t =>
    match t.readWith now k.secret read with
    | .error .expired => .error (.refused 401 "Token expiré")
    | .error _ => .error unknownFault
    | .ok entries =>
      match TokenClaims.ofEntries entries with
      | some c => if (Value.text c.kind).equals kind then .ok c else .error unknownFault
      | none => .error unknownFault

def authenticate (now : Int) (find : String → Option SignedToken) (header : Value) :
    Outcome (String × List String) := do
  if !header.truthy then throw (.refused 401 "Token manquant")
  match Text.words (← header.textFor "split") with
  | [scheme, token] =>
    if lowerText scheme ≠ "bearer" then throw (.refused 401 "Schéma d'authentification invalide")
    let claims ← k.verify now (find token) "access"
    return (claims.subject, claims.roles)
  | _ => throw (.refused 401 "Format de token invalide")

def permits (required roles : Value) : Outcome Bool := do
  for role in ← required.parts do
    if ← role.occursIn roles then return true
  return false

def rotate (now : Int) : Outcome Unit × List Journal.Event × TokenKeeper :=
  match secretNamed k.vault "NEW_JWT_SECRET" with
  | .error f => (.error f, [], k)
  | .ok none => (.error (.badValue "NEW_JWT_SECRET non défini"), [], k)
  | .ok (some secret) =>
    match k.vault.set "JWT_SECRET" secret with
    | (.error f, vault) => (.error f, [], { secret, vault })
    | (.ok (), vault) =>
      match vault.delete "NEW_JWT_SECRET" with
      | (.error f, vault) => (.error f, [], { secret, vault })
      | (.ok (), vault) =>
        (.ok (), [.note (.ofMicros now none) "jwt_secret_rotated" "Rotation de la clé secrète JWT effectuée"
          "INFO"], { secret, vault })

end TokenKeeper

end CodeAudit.Access

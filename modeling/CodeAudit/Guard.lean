import CodeAudit.Pattern.Basic
import CodeAudit.Time.DateTime

/-! Directories that only their owner should use, and a check of their modes. -/

namespace CodeAudit.Guard

structure Directory where
  path : String
  mode : Nat

def sensitiveDirectories : List Directory := [⟨"config", 0o755⟩, ⟨"logs", 0o755⟩, ⟨"logs/audit", 0o755⟩]

def keyFile : List String := ["config", "encryption.key"]

def directoryPaths : List (List String) := [[], ["config"], ["logs"], ["logs", "audit"]]

def followPath : Option (List String) → List String → Outcome (Option (List String))
  | place, [] => .ok place
  | none, part :: rest =>
    if part = ".." || part = "." || part = "" then followPath none rest
    else .error .noFile
  | some place, part :: rest =>
    if place = keyFile then .error (.notDirectory "Not a directory")
    else if part = "." || part = "" then followPath (some place) rest
    else if part = ".." then followPath (if place.isEmpty then none else some place.dropLast) rest
    else if directoryPaths.contains (place ++ [part]) || place ++ [part] = keyFile then
      followPath (some (place ++ [part])) rest
    else .error .noFile

def placeOfPath (path : String) : Outcome (Option (List String)) :=
  if path = "" then .error .noFile
  else if Text.startsWith "/" path then followPath none ((Text.splitOn '/' path).drop 1)
  else followPath (some []) (Text.splitOn '/' path)

def checkMode (n : Int) : Outcome Nat :=
  if n < -2147483648 ∨ 2147483647 < n then .error (.overflow "signed integer is out of range")
  else .ok (n % 4096).toNat

def changeMode (directories : List Directory) (path : String) (mode : Int) : Outcome (List Directory) := do
  let mode ← checkMode mode
  let place ← placeOfPath path
  return directories.map fun d =>
    if some (Text.splitOn '/' d.path) = place then { d with mode } else d

def permissionBits (mode : Nat) : Nat := mode % 0o1000

def modeText (mode : Nat) : String := "0o" ++ String.ofList (Nat.toDigits 8 mode)

def modeIssue (d : Directory) : Option Value :=
  if permissionBits d.mode = 0o700 then none
  else some (.object [
    ("path", d.path), ("current_mode", modeText (permissionBits d.mode)),
    ("recommended_mode", "0o700"), ("severity", "high")])

def modeReport (now : Time.DateTime) (directories : List Directory) : Value := .object [
  ("timestamp", now.text), ("file_issues", .list (directories.filterMap modeIssue)),
  ("access_issues", .list []), ("config_issues", .list []), ("status", "completed")]

/-! Checks on the fields of a form. -/

open Pattern (text all many few word charOf optional digit whole)

def basicLetters : List CharItem := [.range 'a' 'z', .range 'A' 'Z']

def lettersAnd (more : List CharItem) (marks : String) : Pattern :=
  .set false (basicLetters ++ more ++ marks.toList.map .one)

def signsAnd : String → Pattern := lettersAnd [.range '0' '9']

def emailForm : Pattern := whole (all [
  Pattern.some (signsAnd "._%+-"), .lit '@', Pattern.some (signsAnd ".-"), .lit '.',
  .times 2 none true (lettersAnd [] "")])

def phoneForm : Pattern := whole (all [
  optional (.lit '+'), optional (.lit '1'), .times 9 (some 15) true digit])

def usernameForm : Pattern := whole (.times 3 (some 16) true (signsAnd "_-"))

def passwordMarks : String := "@$!%*#?&"

def holding (items : List CharItem) : Pattern := .ahead false (all [many .any, .set false items])

def passwordForm : Pattern := whole (all [
  holding basicLetters, holding [.digit], holding (passwordMarks.toList.map .one),
  .times 8 none true (lettersAnd [.digit] passwordMarks)])

variable (s : Chars)

def isEmail : Bool := emailForm.startsAt s

def isPhone : Bool := phoneForm.startsAt s

def isUsername : Bool := usernameForm.startsAt s

def isPassword : Bool := passwordForm.startsAt s

def queryForms : List Pattern :=
  let phrase := fun (first second : String) => all [word first, many .any, word second]
  [phrase "SELECT" "FROM", phrase "INSERT" "INTO", word "UPDATE", phrase "DELETE" "FROM", word "DROP",
    word "TRUNCATE", word "ALTER", word "CREATE", word "REPLACE", phrase "UNION" "SELECT", word "EXEC",
    word "EXECUTE", text "--", text ";", all [text "/*", few .any, text "*/"]]

def freeOfQueries (s : String) : Bool := !queryForms.any fun p => Pattern.occurs p s { ignoreCase := true }

def scriptForms : List Pattern :=
  all [text "<script", few .any, text ">", few .any, text "</script>"] ::
    ["javascript:", "onerror=", "onload=", "onclick=", "onmouseover=", "eval(", "document.", "window."].map text

def freeOfScripts (s : String) : Bool := !scriptForms.any fun p => Pattern.occurs p s

def commandNames : List String := [
  "cat", "grep", "echo", "ls", "pwd", "cd", "rm", "cp", "mv", "chmod", "chown", "wget", "curl"]

def commandForms : List Pattern := [charOf "&|;\x60", text "$("] ++ commandNames.map word

def freeOfCommands (s : String) : Bool := !commandForms.any fun p => Pattern.occurs p s

def stepForms : List String := ["..", "~", "%2e", "%2f"]

def freeOfSteps (s : String) : Bool := !stepForms.any fun word => Text.occurs word s

def isStructured : Value → Bool
  | .object _ | .list _ => true
  | _ => false

def hasEnding (name : Value) (endings : List Value) : Outcome Bool :=
  match endings with
  | [] => .ok false
  | ending :: rest => do
    let s ← name.textFor "lower"
    let .text e := ending
      | throw (.wrongType
          ("endswith first arg must be str or a tuple of str, not " ++ ending.kind))
    if Text.endsWith e (lowerText s) then return true else hasEnding name rest

/-! Cleaning of pages: tags that name none of the allowed elements are removed, and so are words
that announce a script. -/

def likeChar (a b : Char) : Bool := Pattern.sameChar { ignoreCase := true } a b

def startsLike : Chars → Chars → Bool
  | [], _ => true
  | _ :: _, [] => false
  | w :: word, c :: s => likeChar w c && startsLike word s

def mentions (word : Chars) : Chars → Bool
  | [] => word.isEmpty
  | c :: s => startsLike word (c :: s) || mentions word s

def mentionsAny (words : List String) (s : Chars) : Bool := words.any fun word => mentions word.toList s

def allowedElements : List String :=
  ["p", "br", "strong", "em", "u", "ol", "ul", "li", "h1", "h2", "h3", "h4", "h5", "h6", "code", "pre"]

def keepsTag (tag : Chars) : Bool :=
  allowedElements.any fun name => Chars.occurs name.toList (lowerText (String.ofList tag)).toList

def tagAfter? (rest : Chars) : Option (Chars × Chars) :=
  let body := rest.takeWhile (· ≠ '>')
  match rest.dropWhile (· ≠ '>') with
  | _ :: after => if body.isEmpty then none else some ('<' :: (body ++ ['>']), after)
  | [] => none

/-- What follows a tag is shorter than what was read, so that the walk over all tags ends. -/
theorem length_of_tagAfter? {rest tag after : Chars} (h : tagAfter? rest = some (tag, after)) :
    after.length < rest.length := by
  have hd : (rest.dropWhile (· ≠ '>')).length ≤ rest.length := (List.dropWhile_suffix (· ≠ '>')).length_le
  unfold tagAfter? at h
  split at h
  next c after' hr =>
    rw [hr, List.length_cons] at hd
    dsimp only at h
    split at h
    · cases h
    · cases h
      omega
  next => cases h

def mapTags (f : Chars → Chars) : Chars → Chars
  | [] => []
  | c :: rest =>
    if c = '<' then
      match h : tagAfter? rest with
      | some (tag, after) =>
        have := length_of_tagAfter? h
        f tag ++ mapTags f after
      | none => c :: mapTags f rest
    else c :: mapTags f rest
termination_by s => s.length

def announcements : List String := ["javascript:", "onerror:", "onload:", "onclick:", "onmouseover:"]

def announcementLength? (s : Chars) : Option Nat :=
  (announcements.find? fun word => startsLike word.toList s).map (·.length)

def dropAnnouncements : Nat → Chars → Chars
  | _, [] => []
  | n + 1, _ :: rest => dropAnnouncements n rest
  | 0, c :: rest =>
    match announcementLength? (c :: rest) with
    | some n => dropAnnouncements (n - 1) rest
    | none => c :: dropAnnouncements 0 rest

def cleanHtml (s : String) : String :=
  let tagged := mapTags (fun tag => if keepsTag tag then tag else []) s.toList
  String.ofList (dropAnnouncements 0 tagged)

/-! Checks on what comes from outside. A check lets its input through or says why it is rejected. -/

def queryWords : List String := [
  "select", "insert", "update", "delete", "drop", "union", "exec", "--", "/*", "*/", ";", "@", "$", "#"]

def scriptWords : List String := ["<script", "javascript:", "data:", "vbscript:", "onload=", "onerror="]

def commandWords : List String := ["&", "|", ";", "$(", "\x60", "$\x7b", "eval(", "system("]

def escapes : List String := ["../", "..\\"]

def textLimit : Int := 1000

def limitOf (given : Value) : Value := if given.truthy then given else .int textLimit

def complaint? (s : Chars) : Option String :=
  if mentionsAny queryWords s then some "Motif d'injection SQL détecté"
  else if mentionsAny scriptWords s then some "Motif XSS détecté"
  else if mentionsAny commandWords s then some "Motif d'injection de commande détecté"
  else none

def checkWithin (limit v : Value) : Outcome String := do
  let .text s := v | throw (.rejected "L'entrée doit être une chaîne de caractères")
  if ← (Value.nat s.length).greater limit then
    throw (.rejected ("L'entrée dépasse la longueur maximale de " ++ limit.display))
  match complaint? s.toList with
  | some words => throw (.rejected words)
  | none => return s

def checkText (v limit : Value) : Outcome String := checkWithin (limitOf limit) v

def fileEndings : List String := [".py", ".ts", ".js", ".sql"]

def checkPath (directory : String) (v : Value) : Outcome String := do
  let .text path := v | throw (.wrongType ("expected string or bytes-like object, got '" ++ v.kind ++ "'"))
  if escapes.any fun word => Text.occurs word path then
    throw (.rejected "Tentative de traversée de répertoire détectée")
  let invalid := fun (words : String) => Fault.rejected ("Chemin de fichier invalide: " ++ words)
  if path.toList.contains '\x00' then throw (invalid "embedded null byte")
  let resolved := Path.resolve directory path
  if fileEndings.contains (lowerText (Path.suffix resolved)) then return resolved
  else throw (invalid "Extension de fichier non autorisée")

def fileLimit : Nat := 10485760

def contentKinds : List String :=
  ["text/plain", "text/x-python", "text/javascript", "application/x-sql", "text/x-typescript"]

def checkContent (size : Nat) (kind : Value) : Outcome Unit := do
  if fileLimit < size then throw (.rejected "Taille de fichier dépassée")
  if !contentKinds.any fun k => kind.equals k then
    throw (.rejected ("Type MIME non autorisé: " ++ kind.display))

def checkTexts (limit : Value) (values : List Value) : Outcome Unit :=
  values.forM fun v => match v with
    | .text _ => (checkWithin limit v).map fun _ => ()
    | _ => .ok ()

/-- Lets a document through that has all required fields; its own texts are checked, those further
inside are not. -/
def checkDocument (limit v : Value) (required : List Value) : Outcome Unit := do
  let .object entries := v | throw (.rejected "Les données doivent être un dictionnaire")
  for field in required do
    if !(← field.occursIn v) then
      throw (.rejected ("Champ requis manquant: " ++ field.display))
  checkTexts limit (entries.map (·.2))

def checkCall (arguments : List Value) (named : Entries) : Outcome Unit := do
  checkTexts (limitOf .null) arguments
  checkTexts (limitOf .null) (named.map (·.2))

/-! Checks on requests before they are passed on. A rejected request is answered with 400, any other
fault on the way with 500. -/

structure Request where
  method : String := "GET"
  headers : Entries := []
  query : List Value := []
  params : List Value := []
  body : String := ""

structure Reply where
  status : Nat
  body : Value
  retryAfter : Value := .null

abbrev Settings := Entries

variable (s : Settings)

def Settings.get (name : String) : Outcome Value :=
  match List.lookup name s with
  | some v => .ok v
  | none => .error (.noAttribute ("'SecuritySettings' object has no attribute '" ++ name ++ "'"))

def Settings.usualLimit : Value := (List.lookup "INPUT_MAX_LENGTH" s).getD (limitOf .null)

variable (r : Request)

def Request.hasBody : Bool := ["POST", "PUT", "PATCH"].contains r.method

def Request.header? (name : String) : Option Value := r.headers.lookup (lowerText name)

def checkHeaders : Outcome Unit := do
  if r.hasBody then
    let kind ← ((r.header? "content-type").getD "").textFor "startswith"
    if !Text.startsWith "application/json" kind then
      throw (.rejected "Content-Type doit être application/json")
  for name in ← (← s.get "REQUIRED_HEADERS").parts do
    if (r.header? (← name.textFor "lower")).isNone then
      throw (.rejected ("Header requis manquant: " ++ name.display))
  for (_, value) in r.headers do
    let limit ← s.get "HEADER_MAX_LENGTH"
    let _ ← checkWithin (if limit.truthy then limit else s.usualLimit) value

def checkRequest : Outcome Unit := do
  checkHeaders s r
  if r.hasBody then checkDocument s.usualLimit (← Json.parse r.body) []
  for v in r.query do
    let _ ← checkWithin s.usualLimit v
  checkTexts s.usualLimit r.params

def answer (next : Reply) : Reply :=
  match checkRequest s r with
  | .ok _ => next
  | .error (.rejected words) => { status := 400, body := .object [("error", words)] }
  | .error _ => { status := 500, body := .object [("error", "Erreur interne du serveur")] }

def replyHeaders : List (String × String) := [
  ("X-Content-Type-Options", "nosniff"), ("X-Frame-Options", "DENY"),
  ("X-XSS-Protection", "1; mode=block"),
  ("Strict-Transport-Security", "max-age=31536000; includeSubDomains"),
  ("Content-Security-Policy",
    "default-src 'self'; script-src 'self'; style-src 'self'; img-src 'self' data:; " ++
      "font-src 'self'; connect-src 'self'"),
  ("Referrer-Policy", "strict-origin-when-cross-origin"), ("Cache-Control", "no-store, max-age=0"),
  ("Clear-Site-Data", "\"cache\", \"cookies\", \"storage\"")]

end CodeAudit.Guard

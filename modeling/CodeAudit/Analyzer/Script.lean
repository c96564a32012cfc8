import CodeAudit.Analyzer.Bench
import CodeAudit.Pattern.Basic

/-! Analysis of scripts. Every check looks at one trimmed line at a time and passes over comment
lines. -/

namespace CodeAudit.Analyzer.Script

open Pattern (text word oneOf all optional charOf many wordChar)

inductive Language where
  | shell | python | node

def Language.name : Language → String
  | .shell => "shell"
  | .python => "python"
  | .node => "node"

def languageOfFirstLine? (line : String) : Option Language :=
  if !Text.startsWith "#!" line then none
  else if Text.occurs "/bin/bash" line || Text.occurs "/bin/sh" line then some .shell
  else if Text.occurs "/bin/python" line then some .python
  else if Text.occurs "/bin/node" line then some .node
  else none

def languageOfSuffix? (suffix : String) : Option Language :=
  if suffix = ".sh" || suffix = ".bash" then some .shell
  else if suffix = ".py" then some .python
  else if suffix = ".js" || suffix = ".ts" then some .node
  else none

def languageOfWords? (content : String) : Option Language :=
  let mentions := fun (ws : List String) => ws.any fun w => Text.occurs w content
  if mentions ["#!/bin/bash", "echo", "export"] then some .shell
  else if mentions ["import", "def", "class", "print"] then some .python
  else if mentions ["require(", "module.exports", "console.log"] then some .node
  else none

variable (filename : String)

def languageOfName? : Option Language := languageOfSuffix? (lowerText (Path.suffix filename))

def language? (filename code : String) : Option Language :=
  match languageOfFirstLine? ((Text.lines code).headD "") with
  | some l => some l
  | none =>
    match languageOfName? filename with
    | some l => some l
    | none => languageOfWords? (lowerText code)

structure Command where
  name : String
  pattern : Pattern

def Command.ofWord (name : String) : Command := ⟨name, word name⟩

/-- Commands that destroy data or run anything. Either side of a bar is enough, and only the outer
sides must end at a word. -/
def dangerousCommands : List Command := [
  .ofWord "rm -rf /", .ofWord "chmod 777", .ofWord "> /dev/sda", .ofWord "mkfs",
  .ofWord "dd if=/dev/zero",
  ⟨":()\x7b:|:&\x7d;:", .alt (.seq .boundary (text ":\x7b:")) (.seq (text ":&\x7d;:") .boundary)⟩,
  ⟨"wget http|curl http",
    .alt (.seq .boundary (text "wget http")) (.seq (text "curl http") .boundary)⟩,
  .ofWord "eval", .ofWord "sudo", .ofWord "sudo su"]

def networkCommands : List Command := ["wget", "curl", "nc", "netcat", "telnet", "ftp", "ssh", "nmap"].map .ofWord

def fileCommands : List Command := ["rm", "mv", "cp", "dd", "chmod", "chown", "touch", "mkdir", "rmdir"].map .ofWord

def systemPath : Pattern :=
  all [.boundary, .lit '/', oneOf (["etc", "usr", "bin", "sbin", "lib", "var"].map text), .boundary]

def shellVariable : Pattern := all [.lit '$', optional (.lit '\x7b'), Pattern.some wordChar, optional (.lit '\x7d')]

def quotedVariable : Pattern := all [.lit (Char.ofNat 34), shellVariable, .lit '"']

def commandSubstitution : Pattern :=
  .alt (all [.lit '\x60', many .any, .lit '$', many .any, .lit '\x60'])
    (.seq (.lit '$') (.group 1 (all [many .any, .lit '(', many .any, .lit ')'])))

def commandsIn (commands : List Command) (line : String) : List Command :=
  commands.filter fun c => c.pattern.occurs line

def issueAt (k : Nat) (line kind description severity weakness : String) : Issue :=
  { kind, description, severity, line := k, code := line, weaknesses := [weakness] }

abbrev LineCheck := Nat → String → List Issue

def checkDangerous : LineCheck := fun k line =>
  (commandsIn dangerousCommands line).map fun c =>
    issueAt k line "dangerous_command" ("Commande dangereuse détectée: " ++ c.name) "critical" "CWE-78"

def checkNetwork : LineCheck := fun k line =>
  (commandsIn networkCommands line).map fun c =>
    if Text.occurs "http://" line && !Text.occurs "https://" line then
      issueAt k line "insecure_network" "Communication non chiffrée détectée" "high" "CWE-319"
    else
      issueAt k line "network_access" ("Accès réseau détecté: " ++ c.name) "medium" "CWE-918"

def checkFiles : LineCheck := fun k line =>
  (commandsIn fileCommands line).map fun c =>
    if systemPath.occurs line then
      issueAt k line "file_operation" ("Opération sur fichier système: " ++ c.name) "high" "CWE-73"
    else
      issueAt k line "file_operation" ("Opération sur fichier: " ++ c.name) "medium" "CWE-73"

def checkInput : LineCheck := fun k line =>
  (if shellVariable.occurs line && !quotedVariable.occurs line then
    [issueAt k line "input_validation" "Variable non échappée" "medium" "CWE-78"]
  else []) ++
  (if commandSubstitution.occurs line then
    [issueAt k line "command_injection" "Possible injection de commande" "high" "CWE-78"]
  else [])

def lineChecks : List LineCheck := [checkDangerous, checkNetwork, checkFiles, checkInput]

def checkLines (code : String) (check : LineCheck) : List Issue :=
  ((Text.lines code).zipIdx 1).flatMap fun (line, k) =>
    let trimmed := Text.strip line
    if Text.startsWith "#" trimmed then [] else check k trimmed

def contentIssues (code : String) : List Issue := lineChecks.flatMap (checkLines code)

def modeText (mode : Nat) : String := String.ofList ([64, 8, 1].map fun unit => Nat.digitChar (mode / unit % 8))

def modeIssues (mode : Nat) : List Issue :=
  let issue := fun (description : String) =>
    { kind := "unsafe_permissions", description := description, severity := "high", line := 0
      code := "chmod " ++ modeText mode ++ " " ++ filename, weaknesses := ["CWE-732"] : Issue }
  (if mode / 2 % 2 = 1 then [issue "Le script est modifiable par tous les utilisateurs"] else []) ++
  (if mode / 1024 % 4 ≠ 0 then [issue "Le script a des bits SUID/SGID activés"] else [])

structure Report where
  language : Language
  issues : List Issue

def analyze? (filename code : String) (mode : Option Nat) : Option Report :=
  (language? filename code).map fun l =>
    { language := l, issues := contentIssues code ++ (mode.map (modeIssues filename)).getD [] }

def reportValue : Option Report → Value
  | none => .object [("is_script", .bool false)]
  | some r => .object [
      ("is_script", .bool true), ("script_type", r.language.name),
      ("issues", .list (r.issues.map (·.toValue)))]

def source (code : Value) : Outcome String :=
  match code with
  | .text s => .ok s
  | v =>
    if v.truthy || (languageOfName? filename).isSome then .error (v.lacks "splitlines")
    else .error (v.lacks "lower")

/-- The fault of a name that is no text. A first line that tells the language puts it off until the
file is looked for. -/
def nameFault (name code : Value) : Fault :=
  let unread := name.noPath
  match code with
  | .text s =>
    if (languageOfFirstLine? ((Text.lines s).headD "")).isSome then
      .wrongType ("stat: path should be string, bytes, os.PathLike or integer, not " ++ name.kind)
    else unread
  | v => if v.truthy then v.lacks "splitlines" else unread

def nameOf (job : Job) : Outcome String :=
  match job.filename, job.code with
  | .text s, _ => .ok s
  | .int _, .text s | .bool _, .text s =>
    if (languageOfFirstLine? ((Text.lines s).headD "")).isSome then .ok job.filename.display
    else .error (nameFault job.filename job.code)
  | v, code => .error (nameFault v code)

def engine (modeOf : String → Option Nat) : Engine where
  category := .ok .script
  setup := fun _ => ⟨[], .ok ()⟩
  analysis := fun job =>
    let result := do
      let filename ← nameOf job
      let code ← source filename job.code
      return reportValue (analyze? filename code (modeOf filename))
    ⟨[], result.mapError fun f => .runtime ("Erreur lors de l'analyse du script: " ++ f.text)⟩

end CodeAudit.Analyzer.Script

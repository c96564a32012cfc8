import CodeAudit.Analyzer.Bench
import CodeAudit.Number.Written

/-! Analysis of TypeScript. The complaints of a compiler and a linter are sorted into security
issues and remarks on quality. -/

namespace CodeAudit.Analyzer.TypeScript

structure Complaint where
  code : String
  message : String
  line : Int
  column : Int
  isError : Bool

def Complaint.toValue (c : Complaint) : Value :=
  .object [
    ("type", "typescript"), ("code", c.code), ("message", c.message),
    ("line_number", .int c.line), ("column", .int c.column),
    ("severity", (if c.isError then "error" else "warning"))]

def between (s : Chars) (start : Nat) (stop : Option Nat) : Chars :=
  (s.take (stop.getD (s.length - 1))).drop start

def position? (place : Chars) : Option (Int × Int) := do
  let start := match Chars.indexOf ['('] place with
    | some i => i + 1
    | none => 0
  let parts := Chars.splitOn ',' (between place start (Chars.indexOf [')'] place))
  let line ← intOfText? (String.ofList (parts.headD []))
  match parts.drop 1 with
  | [] => return (line, 0)
  | column :: _ => return (line, ← intOfText? (String.ofList column))

/-- Reads a complaint `place: type: code and message`; what follows a further colon is dropped. -/
def readComplaint? (line : String) : Option Complaint :=
  match Chars.splitFirst ':' 3 line.toList with
  | place :: type :: message :: _ =>
    (position? place).map fun (line, column) =>
      let message := Chars.strip message
      { code := String.ofList ((Chars.splitOn ' ' message).headD []), message := String.ofList message
        line := line, column := column, isError := Chars.occurs "error".toList type }
  | _ => none

def readComplaints (text : String) : List Complaint :=
  (Text.lines text).filterMap fun line =>
    if Text.occurs "(" line && Text.occurs ")" line then readComplaint? line else none

def lintIssue (message : Value) : Outcome Value := do
  return .object [
    ("type", "eslint"), ("code", ← message.fetch "ruleId" ""),
    ("message", ← message.fetch "message" ""), ("line_number", ← message.fetch "line" (.int 0)),
    ("column", ← message.fetch "column" (.int 0)),
    ("severity", (if (← message.fetch "severity" .null).equals (.int 2) then "error"
      else "warning"))]

def lintIssues (report : Value) : Outcome (List Value) := do
  (← (← report.fetch "messages" (.list [])).parts).mapM lintIssue

def commonRules : List String := [
  "detect-buffer-noassert", "detect-child-process", "detect-disable-mustache-escape", "detect-new-buffer",
  "detect-possible-timing-attacks", "detect-pseudoRandomBytes", "detect-unsafe-regex"]

/-- Parts of the names of rules about security. One of them has a capital letter and so is part of
no name in small letters. -/
def securityMarks : List String :=
  ["security/", "detect-eval", "detect-non-literal-require", "detect-no-csrf-before-method-override",
    "detect-object-injection"] ++ commonRules

def ruleName (issue : Value) : Outcome String := do
  return lowerText (← (← issue.fetch "code" "").textFor "lower")

def isSecurityRule (rule : String) : Bool := securityMarks.any fun mark => Text.occurs mark rule

def securityIssue (filename : Value) (issue : Value) : Outcome Value := do
  return .object [
    ("severity", (if (← issue.fetch "severity" .null).equals "error" then "high"
      else "medium")),
    ("type", "security_typescript"), ("code", ← issue.fetch "code" ""),
    ("message", ← issue.fetch "message" ""),
    ("line_number", ← issue.fetch "line_number" (.int 0)),
    ("column", ← issue.fetch "column" (.int 0)), ("file", filename)]

structure Sorted where
  security : List Value := []
  complexity : Nat := 0
  vars : List Value := []
  functions : List Value := []
  imports : List Value := []

def Sorted.addQuality (s : Sorted) (rule : String) (issue : Value) : Sorted :=
  if Text.occurs "complexity" rule then { s with complexity := s.complexity + 1 }
  else if !Text.occurs "unused" rule then s
  else if Text.occurs "variable" rule then { s with vars := s.vars ++ [issue] }
  else if Text.occurs "function" rule then { s with functions := s.functions ++ [issue] }
  else if Text.occurs "import" rule then { s with imports := s.imports ++ [issue] }
  else s

variable (filename : Outcome Value)

def Sorted.add (s : Sorted) (issue : Value) : Outcome Sorted := do
  let rule ← ruleName issue
  if isSecurityRule rule then
    let told ← securityIssue (← filename) issue
    return { s with security := s.security ++ [told] }
  else return s.addQuality rule issue

def Sorted.toValue (s : Sorted) : Value :=
  .object [
    ("security_issues", .list s.security),
    ("code_quality", .object [
      ("complexity", .nat s.complexity), ("functions", .list []),
      ("unused_code", .object [
        ("variables", .list s.vars), ("functions", .list s.functions),
        ("imports", .list s.imports)])])]

def sortIssues (compiler : List Value) (linter : Outcome (List Value)) : Outcome Value := do
  let s ← compiler.foldlM (Sorted.add filename) {}
  return (← (← linter).foldlM (Sorted.add filename) s).toValue

def switchedOn (names : List String) : Entries := names.map fun n => (n, .bool true)

def compilerSettings : Value :=
  .object [("compilerOptions", .object (
    [("target", .text "ES2020"), ("module", .text "commonjs")] ++
    switchedOn ["strict", "esModuleInterop", "skipLibCheck", "forceConsistentCasingInFileNames",
      "noImplicitAny", "strictNullChecks", "strictFunctionTypes", "noImplicitThis", "noUnusedLocals",
      "noUnusedParameters", "noImplicitReturns", "noFallthroughCasesInSwitch"]))]

def linterSettings : Value :=
  .object [
    ("env", .object (switchedOn ["browser", "es2021", "node"])),
    ("extends", .texts ["eslint:recommended", "plugin:@typescript-eslint/recommended",
      "plugin:security/recommended"]),
    ("parser", "@typescript-eslint/parser"),
    ("parserOptions", .object [("ecmaVersion", .int 12), ("sourceType", "module")]),
    ("plugins", .texts ["@typescript-eslint", "security"]),
    ("rules", .object ((["detect-object-injection", "detect-non-literal-regexp", "detect-non-literal-require",
      "detect-eval-with-expression", "detect-no-csrf-before-method-override"] ++ commonRules).map
        fun rule => ("security/" ++ rule, "error")))]

variable (tools : Toolbox)

def lint : Outcome (List Value) := do
  let reply ← tools.run "eslint" "eslint"
  if !reply.output.truthy then return []
  match ← reply.document? with
  | some (.list (first :: _)) => lintIssues first
  | _ => return []

def inspect (filename : Value) : Outcome Value := do
  let reply ← tools.run "tsc" "tsc"
  let told ← if reply.complaint.truthy then reply.complaint.textFor "splitlines" else pure ""
  let complaints := (readComplaints told).map (·.toValue)
  sortIssues (.ok filename) complaints (.ok (← lint tools))

def engine : Engine where
  category := .ok .typeScript
  setup := fun _ => ⟨[], tools.demand "Outils TypeScript non disponibles" ["tsc", "eslint"]⟩
  analysis := fun job =>
    withSourceFile ".ts" "Erreur lors de l'analyse TypeScript: "
      [⟨Json.write {} compilerSettings, ".json"⟩, ⟨Json.write {} linterSettings, ".json"⟩]
      (inspect tools job.filename) job

end CodeAudit.Analyzer.TypeScript

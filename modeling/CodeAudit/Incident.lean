import CodeAudit.Text.LetterCase
import CodeAudit.Time.DateTime

/-! Errors of an analysis with their severity, category and place, and how they are handled. -/

namespace CodeAudit.Incident

inductive Severity where
  | critical | error | warning | info

def Severity.word : Severity → String
  | .critical => "critical"
  | .error => "error"
  | .warning => "warning"
  | .info => "info"

inductive Category where
  | configuration | analysis | security | system | network | database | validation | plugin | unknown

def Category.word : Category → String
  | .configuration => "configuration"
  | .analysis => "analysis"
  | .security => "security"
  | .system => "system"
  | .network => "network"
  | .database => "database"
  | .validation => "validation"
  | .plugin => "plugin"
  | .unknown => "unknown"

def severities : List Severity := [.critical, .error, .warning, .info]

def categories : List Category :=
  [.configuration, .analysis, .security, .system, .network, .database, .validation, .plugin, .unknown]

def Severity.ofValue (v : Value) : Outcome Severity :=
  match severities.find? fun s => v.equals s.word with
  | some s => .ok s
  | none => .error (.badValue (v.literal ++ " is not a valid ErrorSeverity"))

def Category.ofValue (v : Value) : Outcome Category :=
  match categories.find? fun c => v.equals c.word with
  | some c => .ok c
  | none => .error (.badValue (v.literal ++ " is not a valid ErrorCategory"))

structure Context where
  timestamp : Time.DateTime
  file : Value := .null
  line : Value := .null
  function : Value := .null
  trace : Value := .null
  info : Value := .object []

inductive Kind where
  | analysis (category : Category)
  | configuration
  | analyzer (name : Value)
  | security (vulnerability : Value) (weaknesses : Value)

def Kind.name : Kind → String
  | .analysis _ => "AnalysisError"
  | .configuration => "ConfigurationError"
  | .analyzer _ => "AnalyzerError"
  | .security .. => "SecurityError"

def Kind.category : Kind → Category
  | .analysis c => c
  | .configuration => .configuration
  | .analyzer _ => .analysis
  | .security .. => .security

def Kind.severity : Kind → Severity
  | .security .. => .critical
  | _ => .error

end Incident

structure Incident where
  kind : Incident.Kind
  message : String
  severity : Incident.Severity
  context : Incident.Context
  cause : Option String := none

namespace Incident

def Kind.contextFrom (k : Kind) (given : Option Context) (now : Time.DateTime) : Outcome Context :=
  match k, given with
  | .analysis _, none | .configuration, none =>
    .error (.noAttribute "'StackSummary' object has no attribute 'tb_frame'")
  | .analysis _, some c | .configuration, some c => .ok c
  | .analyzer name, _ =>
    let c := given.getD { timestamp := now }
    match c.info with
    | .object info => .ok { c with info := .object (Entries.put "analyzer_name" name info) }
    | v => .error (v.cannot "does not support item assignment")
  | .security vulnerability weaknesses, _ =>
    let c := given.getD { timestamp := now }
    let listed := if weaknesses.truthy then weaknesses else .list []
    match c.info with
    | .object info =>
      let told := Entries.merge info [("vulnerability_type", vulnerability), ("cwe_ids", listed)]
      .ok { c with info := .object told }
    | v => .error (v.lacks "update")

def make (kind : Kind) (message : String) (severity : Option Severity) (given : Option Context)
    (cause : Option String) (now : Time.DateTime) : Outcome Incident := do
  let context ← kind.contextFrom given now
  match context.trace with
  | .text _ => pure ()
  | v =>
    if v.truthy then
      let place := if cause.isSome then 6 else 5
      throw (.wrongType
        ("sequence item " ++ toString place ++ ": expected str instance, " ++ v.kind ++ " found"))
  return {
    kind := kind, message := message, severity := severity.getD kind.severity, context := context
    cause := cause }

variable (e : Incident)

def lines : List String :=
  ["[" ++ upperText e.severity.word ++ "] [" ++ e.kind.category.word ++ "] " ++ e.message,
    "File: " ++ e.context.file.display, "Line: " ++ e.context.line.display,
    "Function: " ++ e.context.function.display] ++
  (match e.cause with
    | some words => ["Original error: " ++ words]
    | none => []) ++
  (if e.context.trace.truthy then ["\nStack trace:", e.context.trace.display] else [])

def text : String := "\n".intercalate e.lines

def toValue : Value :=
  .object [
    ("message", e.message), ("severity", e.severity.word),
    ("category", e.kind.category.word),
    ("context", .object [
      ("timestamp", e.context.timestamp.text), ("file", e.context.file),
      ("line", e.context.line), ("function", e.context.function), ("stack_trace", e.context.trace),
      ("additional_info", e.context.info)]),
    ("original_error", .ofText? e.cause)]

inductive Ending where
  | answer (v : Value)
  | incident (e : Incident)
  | fault (f : Fault)

def ofFault (name : Value) (f : Fault) (now : Time.DateTime) : Incident where
  kind := .analyzer name
  message := "Erreur lors de l'analyse avec " ++ name.display ++ ": " ++ f.text
  severity := .error
  context := { timestamp := now, info := .object [("analyzer_name", name)] }
  cause := some f.text

def guarded (name : Value) (e : Ending) (now : Time.DateTime) : Except Incident Value :=
  match e with
  | .answer v => .ok v
  | .incident e => .error e
  | .fault f => .error (ofFault name f now)

end Incident

end CodeAudit

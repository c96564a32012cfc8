import CodeAudit.Text.LetterCase
import CodeAudit.Time.DateTime

/-! The results of analysing one file: problems, measures of quality, and a summary that counts
problems by severity. -/

namespace CodeAudit

structure SecurityIssue where
  severity : Value
  confidence : Value
  type : Value
  description : Value
  line : Value
  code : Value
  weaknesses : Value
  file : Value
  moreInfo : Value := ""
  fixes : Value := .list []
  references : Value := .list []
  impact : Value := ""
  mitigation : Value := .list []

namespace SecurityIssue

def toValue (i : SecurityIssue) : Value :=
  .object [
    ("severity", i.severity), ("confidence", i.confidence), ("type", i.type),
    ("description", i.description), ("line_number", i.line), ("code", i.code), ("cwe", i.weaknesses),
    ("file", i.file), ("more_info", i.moreInfo), ("fix_suggestions", i.fixes),
    ("references", i.references), ("impact_description", i.impact), ("mitigation_steps", i.mitigation)]

def ofValue (v : Value) : Outcome SecurityIssue := do
  return {
    severity := ← v.member "severity", confidence := ← v.member "confidence"
    type := ← v.member "type", description := ← v.member "description"
    line := ← v.member "line_number", code := ← v.member "code", weaknesses := ← v.member "cwe"
    file := ← v.member "file", moreInfo := ← v.fetch "more_info" ""
    fixes := ← v.fetch "fix_suggestions" (.list []), references := ← v.fetch "references" (.list [])
    impact := ← v.fetch "impact_description" ""
    mitigation := ← v.fetch "mitigation_steps" (.list []) }

end SecurityIssue

structure CodeQuality where
  complexity : Value := .float 0.0
  maintainability : Value := .float 0.0
  functions : Value := .list []
  complexFunctions : Value := .list []
  unusedCode : Value := .object []
  styleIssues : Value := .list []
  summary : Value := .object []
  scriptType : Value := .null

namespace CodeQuality

def toValue (q : CodeQuality) : Value :=
  .object [
    ("complexity", q.complexity), ("maintainability_index", q.maintainability),
    ("functions", q.functions), ("complex_functions", q.complexFunctions),
    ("unused_code", q.unusedCode), ("style_issues", q.styleIssues), ("quality_summary", q.summary),
    ("script_type", q.scriptType)]

def ofValue (v : Value) : Outcome CodeQuality := do
  return {
    complexity := ← v.member "complexity", maintainability := ← v.member "maintainability_index"
    functions := ← v.member "functions", complexFunctions := ← v.member "complex_functions"
    unusedCode := ← v.member "unused_code", styleIssues := ← v.member "style_issues"
    summary := ← v.member "quality_summary", scriptType := ← v.fetch "script_type" .null }

def set (q : CodeQuality) (name : String) (v : Value) : CodeQuality :=
  match name with
  | "complexity" => { q with complexity := v }
  | "maintainability_index" => { q with maintainability := v }
  | "functions" => { q with functions := v }
  | "complex_functions" => { q with complexFunctions := v }
  | "unused_code" => { q with unusedCode := v }
  | "style_issues" => { q with styleIssues := v }
  | "quality_summary" => { q with summary := v }
  | "script_type" => { q with scriptType := v }
  | _ => q

end CodeQuality

def severityLevels : List String := ["critical", "high", "medium", "low"]

structure Results where
  file : String
  timestamp : Time.DateTime
  issues : Value := .list []
  quality : CodeQuality := {}
  summary : Value
  metadata : Value := .object []
  code : Value := .null

namespace Results

variable (r : Results)

def filename : String := Path.name r.file

def noCounts : Entries := severityLevels.map fun level => (level, .int 0)

def firstSummary (given : Value) : Value :=
  if given.truthy then given else .object [("severity_counts", .object noCounts)]

def filePath (file : Value) : Outcome String :=
  match file with
  | .text path => .ok path
  | v => .error v.noPath

def new (file : Value) (now : Time.DateTime) (summary metadata : Value) : Outcome Results := do
  return {
    file := ← filePath file, timestamp := now, summary := firstSummary summary, metadata := metadata }

/-- The results of an analysis that was not done. Their time is the one of the system, whoever asks
for them. -/
def notDone (now : Time.DateTime) : Results where
  file := "unknown"
  timestamp := now
  summary := .object [("error", .bool true), ("message", "Analyse non effectuée")]
  metadata := .object [("status", "error")]

def toEntries : Entries := [
  ("file", r.file), ("timestamp", r.timestamp.text), ("security_issues", r.issues),
  ("code_quality", r.quality.toValue), ("summary", r.summary), ("metadata", r.metadata),
  ("code", r.code)]

def toValue : Value := .object r.toEntries

def ofValue (v : Value) : Outcome Results := do
  let file ← filePath (← v.member "file")
  let timestamp ← match ← v.member "timestamp" with
    | .text s => Time.parse s
    | _ => .error (.wrongType "fromisoformat: argument must be str")
  let issues ← v.member "security_issues"
  let quality ← CodeQuality.ofValue (← v.member "code_quality")
  return {
    file := file, timestamp := timestamp, issues := issues, quality := quality
    summary := ← v.member "summary", metadata := ← v.fetch "metadata" (.object [])
    code := ← v.fetch "code" .null }

def countSeverity (summary : Value) (severity : String) : Outcome Value := do
  let counts ← summary.member "severity_counts"
  if ← counts.holds severity then
    let count ← Value.arith "+=" Num.add (← counts.member severity) (.int 1)
    summary.assign "severity_counts" (← counts.assign severity count)
  else return summary

def appendIssue (issue : Value) : Outcome Results :=
  match r.issues with
  | .list items => .ok { r with issues := .list (items ++ [issue]) }
  | v => .error (v.lacks "append")

def add (issue : SecurityIssue) : Outcome Unit × Results :=
  match r.appendIssue issue.toValue with
  | .error f => (.error f, r)
  | .ok r =>
    let counted := do
      let severity ← issue.severity.textFor "lower"
      countSeverity r.summary (lowerText severity)
    match counted with
    | .ok summary => (.ok (), { r with summary := summary })
    | .error f => (.error f, r)

def issuesWith (field : String) (wanted : Value) : Outcome (List Value) := do
  (← r.issues.parts).filterM fun issue => do
    let text ← (← issue.member field).textFor "lower"
    return lowerText text == lowerText (← wanted.textFor "lower")

def complexFunctions (threshold : Value) : Outcome (List Value) := do
  (← r.quality.functions.parts).filterM fun f => do
    (← f.fetch "complexity" (.int 0)).greater threshold

def severityCounts : Outcome Entries := do
  (← r.issues.parts).foldlM (fun counts issue => do
    let severity := lowerText (← (← issue.member "severity").textFor "lower")
    return counts.map fun (level, n) =>
      if level = severity then (level, match n with
        | .int k => .int (k + 1)
        | v => v)
      else (level, n)) noCounts

def update (r : Results) : Outcome Results := do
  let counts ← r.severityCounts
  let old ← match r.summary with
    | .object old => .ok old
    | v => .error (v.lacks "update")
  let summary := Entries.merge old [
    ("total_issues", .nat (← r.issues.size)), ("severity_counts", .object counts),
    ("complexity_score", r.quality.complexity), ("maintainability_index", r.quality.maintainability),
    ("complex_functions_count", .nat (← r.quality.complexFunctions.size)),
    ("style_issues_count", .nat (← r.quality.styleIssues.size))]
  return { r with summary := .object summary }

end Results

end CodeAudit

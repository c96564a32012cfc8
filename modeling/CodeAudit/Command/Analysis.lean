import CodeAudit.Analyzer.Quality
import CodeAudit.Analyzer.Registry
import CodeAudit.Audit
import CodeAudit.Command.Request
import CodeAudit.Guard
import CodeAudit.Metrics
import CodeAudit.Review
import CodeAudit.Scoring
import CodeAudit.Scratch

/-! Requests for scores and measures of code. -/

namespace CodeAudit.Command

def grade : Query := fun input => do
  let score ← input.member "score"
  match score.number? with
  | some n => return (Scoring.grade n)
  | none => throw (Value.unordered ">=" score (.int 95))

def score : Query := fun input => do
  let arg ← arguments (← input.member "args") ["severity_counts", "complexity_score", "max_complexity"]
    [("test_coverage", .null), ("code_smells", .null)]
  let report ← Scoring.assess {
    severityCounts := arg "severity_counts", complexity := arg "complexity_score"
    maxComplexity := arg "max_complexity", coverage := arg "test_coverage", smells := arg "code_smells" }
  return .object [("score", report.toValue), ("grade", (Scoring.grade (.float report.score.total)))]

def trend : Query := fun input => do
  let values ← input.member "values"
  let n ← values.size
  match values with
  | .list items => return (← Scoring.trend items).word
  | .text s => return (← Scoring.trend (s.toList.map fun c => c.toString)).word
  | _ => if n < 2 then return "stable" else throw badCall

def notSource : Fault := .wrongType "compile() arg 1 must be a string, bytes or AST object"

def moduleMetrics : Query := fun input => do
  let .text code ← input.member "code" | throw notSource
  let m ← Metrics.measure .standard code
  let names := fun (measure : Metrics.FunctionMetrics → Nat) (default : Int) => do
    let t : Value := match field input "threshold" .null with
      | .null => .int default
      | t => t
    match t.number? with
    | some n => return Value.texts ((m.above measure n).map (·.name))
    | none => if m.allFunctions.isEmpty then return .list [] else throw (Value.unordered ">" (.int 0) t)
  return .object [
    ("metrics", m.toValue), ("complex", ← names (·.complexity) 10), ("long", ← names (·.lines) 50),
    ("nested", ← names (·.nestedDepth) 3)]

def metricsPlugin : Query := fun input => do
  match ← input.member "code" with
  | .text code =>
    match Metrics.summarize .standard code with
    | .ok s => return s.toValue
    | .error f => return Metrics.failedSummary f
  | _ => return Metrics.failedSummary notSource

def qualityAudit : Query := fun input => do
  match ← input.member "code" with
  | .text code => return (Audit.auditQuality .standard code).toValue
  | _ => return (Audit.failedAudit notSource).toValue

def securityAudit : Query := fun input => do
  match ← input.member "code" with
  | .text code => return (Audit.auditSecurity .standard code).toValue
  | _ => return (Audit.SecurityReport.mk [] 0.0).toValue

def fileAudit : Query := fun input => do
  let code ← input.member "code"
  let source ← code.textFor "split"
  let report ← (Audit.auditFile .standard source "").entries
  let shown := Entries.put "file" (field input "filename" "code.py") (Entries.erase "code" report)
  return .object (shown ++ [("same_code", .bool true)])

def blockPlugin : Query := fun input => do
  let code ← input.member "code"
  let result := match code with
    | .text source => Metrics.blockReport .standard source
    | _ => .object [("error", notSource.text)]
  return .object [
    ("result", result), ("name", "complexity_analyzer"), ("type", "analyzer"),
    ("dependencies", .texts ["radon>=5.1.0"]), ("config", .object [])]

/-! Requests to the analyzers. -/

open Analyzer

def toolboxOf (input : Value) : Toolbox := fun command =>
  match field (field input "tools" (.object [])) command .null with
  | .null => .done {}
  | reply =>
    match field reply "fail" .null with
    | .text "missing" => .missing
    | .text "status" => .failed
    | _ => .done {
        output := field reply "stdout" "", complaint := field reply "stderr" ""
        status := field reply "returncode" (.int 0) }

def jobOf (op : Value) : Outcome Job := do
  return { code := ← op.member "code", filename := field op "filename" "code.py" }

/-! The file system on which the requests are answered. -/

def rootDirectories : List String := [
  "bin", "boot", "dev", "etc", "home", "lib", "lib64", "media", "mnt", "opt", "proc", "root", "run", "sbin",
  "srv", "sys", "tmp", "usr", "var"]

def modeOfPlace? (path : String) : Option Nat :=
  if !Path.isAbsolute path then none
  else match Path.settle [] (Path.parts path) with
    | ["tmp"] | ["var", "tmp"] => some 0o1777
    | ["dev", device] => if ["full", "null", "random", "tty", "urandom", "zero"].contains device then some 0o666
      else none
    | _ => none

def makerOf : String → Outcome Maker := choose [
  ("script", .script), ("vulture", .deadCode), ("prospector", .quality), ("typescript", .typeScript), ("sql", .sql),
  ("radon", .complexity), ("bandit", .securityScan), ("object", .plain)] .missingKey

def engineOf (tools : Toolbox) (name : String) : Option Engine :=
  (makerOf name).toOption.bind (·.engine? tools modeOfPlace?)

variable (e : Engine)

def analyzeOnce (job : Job) : Outcome Value := do
  let (accepted, b) := Bench.accept e job {}
  accepted
  (Bench.analyze e b).1

def issueBefore (a b : Value) : Bool :=
  let key := fun (v : Value) => Value.list [
    field v "line_number" .null, field v "type" .null, field v "description" .null]
  match (key a).atMost (key b) with
  | .ok r => r
  | .error _ => true

def modeOf (v : Value) : Outcome Int :=
  match v with
  | .text s => intOfTextIn 8 s
  | _ => .error badCall

def fileMode (job : Job) (mode : Value) : Outcome Nat := do
  match job.filename, job.code with
  | .text name, .text _ => Scratch.checkPlace rootDirectories name
  | .text _, v => throw (.wrongType ("write() argument must be str, not " ++ v.kind))
  | v, _ => throw v.noPath
  Guard.checkMode (← modeOf mode)

def script : Query := fun input => do
  let job ← jobOf input
  let given := field input "mode" .null
  let mode ← if given.truthy then some <$> fileMode job given else pure none
  let modeAt := fun (path : String) => if mode.isSome then mode else modeOfPlace? path
  let result ← analyzeOnce (Script.engine modeAt) job
  match result with
  | .object entries =>
    return .object (entries.map fun (k, v) => match k, v with
      | "issues", .list items => (k, .list (items.mergeSort issueBefore))
      | _, _ => (k, v))
  | v => return v

def analyzerLife : Play := fun input => do
  let some e := engineOf (toolboxOf input) (textField input "cls" "script")
    | throw badCall
  play input ({} : Bench) fun b name op =>
    match name with
    | "init" => attempt b (jobOf op) fun job => done <| Bench.accept e job b
    | "analyze" => Bench.analyze e b
    | "cleanup" =>
      let b := b.cleanup
      (.ok (.nat b.recorded.length), b)
    | "context" => look b (b.context.map fun job => job.filename)
    | "type" => look b (e.category.map fun c => c.name)
    | "temp" => attempt b (op.member "content") fun content =>
      let draft : Outcome Draft := do
        let _ ← b.context
        let suffix ← Scratch.suffixOf (field op "suffix" .null)
        return ⟨← draftText content, suffix⟩
      attempt b draft fun draft =>
        let (r, b) := b.createTemp draft
        (r.map fun d => .object [
          ("text", Text.unifyNewlines d.content),
          ("suffix", Path.suffix (Scratch.anyName ++ d.suffix)),
          ("files", .nat b.recorded.length)], b)
    | other => unknownStep b other

variable (input : Value)

/-- A job from its start to the clean-up. -/
def wholeLife (shown : Outcome Value → Bench → Reply) : Outcome (List Reply) := do
  let (r1, b1) := Bench.accept e (← jobOf input) {}
  let (r2, b2) := Bench.analyze e b1
  return [shown (r1.map fun _ => .null) b1, shown r2 b2, shown (.ok .null) b2.cleanup]

def toolRun : Play := fun input => do
  let some e := engineOf (toolboxOf input) (← input.member "tool").display | throw (.missingKey "tool")
  return .steps (← wholeLife e input fun r b => .object [
    ("result", .ofOutcome r), ("initialized", .value (.bool b.ready)),
    ("files", .value (.nat b.recorded.length))])

def sqlAnalysis : Query := fun input => do analyzeOnce Sql.engine (← jobOf input)

def sqlPatterns : Query := fun input => do
  let code ← input.member "code"
  let rules ← match (← input.member "set").display with
    | "dangerous" => .ok Sql.dangerousRules
    | "best" => .ok Sql.practiceRules
    | _ => .error (.missingKey "set")
  let .text sql := code | throw badCall
  return .list ((Sql.checkPatterns rules sql).map (·.toValue))

def sqlStatement : Query := fun input => do
  let tokens ← (← input.member "tokens").parts
  let pieces ← tokens.mapM fun t => do
    return ({
      text := (← t.member "v").display
      isKeyword := isOn t "kw", isGroup := isOn t "grp"
      line := some 1 } : Sql.Piece)
  let issues ← (← choose [("select", Sql.checkSelect), ("insert", Sql.checkInsert), ("update", Sql.checkUpdate),
    ("delete", Sql.checkDelete)] .noAttribute (← input.member "kind").display) pieces
  let line := (tokens.head?.map fun t => field t "line" (.int 1)).getD .null
  return .list (← issues.mapM fun i => i.toValue.assign "line_number" line)

def fix : Query := fun input => do
  let issue ← input.member "issue"
  let remedy ← choose [("sql", Sql.remedy), ("bandit", SecurityScan.remedy), ("radon", Complexity.remedy),
    ("vulture", DeadCode.remedy)] .missingKey (← input.member "tool").display
  return ← remedy issue

def compilerLine : Query := fun input => do
  match ← input.member "line" with
  | .text line => return match TypeScript.readComplaint? line with
    | some c => c.toValue
    | none => .null
  | _ => return .null

def lintReport : Query := fun input => do
  return .list (← TypeScript.lintIssues (← input.member "result"))

def typeScriptIssues : Query := fun input => do
  let filename : Outcome Value :=
    if (field input "context" (.bool true)).truthy then .ok (field input "filename" "code.py")
    else .error noContext
  let complaints ← input.member "ts"
  let linted ← input.member "eslint"
  TypeScript.sortIssues filename (← complaints.parts) linted.parts

def scanReport : Query := fun input => do
  SecurityScan.processReport (← input.member "results")

def complexityReport : Query := fun input => do
  let results ← input.member "results"
  (← choose [("cc", Complexity.processBlocks), ("hal", Complexity.processHalstead),
    ("mi", Complexity.processMaintainability), ("raw", Complexity.processLines)] .noAttribute
    (← input.member "kind").display) results

def complexityRank : Query := fun input => do
  let value ← input.member "value"
  return ← (← choose [("complexity", Complexity.complexityRank),
    ("maintainability", Complexity.maintainabilityRank)] .noAttribute (← input.member "kind").display) value

def deadCodeReport : Query := fun input => do
  DeadCode.processReport (← input.member "results")

def qualityScore : Play := fun input => do
  let results ← input.member "results"
  return .object [
    ("aggregate", .ofOutcome (Quality.aggregate (field input "tools_stats" (.object [])))),
    ("coverage", .ofOutcome (Quality.coverage results))]

def fileLife : Outcome Reply := do
  let shown := fun (r : Outcome Value) (b : Bench) =>
    Reply.object [("result", .ofOutcome r), ("files", .value (.nat b.recorded.length))]
  let early := if isOn input "early" then [shown (Bench.analyze e {}).1 {}] else []
  return .steps (early ++ (← wholeLife e input shown))

def toldBy (key : String) : Outcome (List Value) :=
  do (← toldOr input "fail" (field input key (.list []))).parts

def qualityRun : Play := fun input =>
  fileLife (Quality.engine (toldBy input "messages") (isOn input "lose")) input

def securityRun : Play := fun input =>
  let packages : Outcome (List Value) := match input.member "vulns" with
    | .error _ => .error (.runtime "no database")
    | .ok v => v.parts
  fileLife (Vulnerability.engine (toldBy input "issues") packages (isOn input "lose")) input

def strategy : Query := fun input => do
  let name := (← input.member "name").display
  let code ← input.member "code"
  let .text source := code | throw badCall
  match name with
  | "ts_security" => return Review.reviewSecurity source
  | "ts_quality" => Review.reviewQuality Review.securityRules source
  | "security" => return Review.reviewDangers source
  | "quality" => Review.reviewUsage source
  | "sql_security" => return Review.reviewSqlSecurity source
  | "sql_performance" => return Review.reviewSqlPerformance source
  | "sql_quality" => return Review.reviewSqlQuality source
  | other => throw (.missingKey other)

def patternInfo : Query := fun input => do
  let name := (← input.member "name").display
  return .texts [
    Review.securityWords name, Review.securityGrade name, Review.qualityWords name, Review.qualityGrade name]
end CodeAudit.Command

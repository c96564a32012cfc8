import CodeAudit.Analyzer.Bench
import CodeAudit.Data.Table
import CodeAudit.Text.LetterCase

/-! Quality of code as told by an engine that runs several tools. Messages are counted by tool and
by type. -/

namespace CodeAudit.Analyzer

def meanScore (weighted total : Value) : Outcome Value := do
  let mean ← Value.arith "/" (fun a b => (Num.div a b).map .float) weighted total
  let percent ← Value.arith "*" Num.mul mean (.int 100)
  let score ← Value.arith "-" Num.sub (.int 100) percent
  match score.number? with
  | some n => return .ofNum (Num.max (.int 0) n)
  | none => return score

def roundScore (score : Value) : Value :=
  match score.number? with
  | some n => .ofNum (n.round 2)
  | none => score

def countedMetrics (results : Value) : Outcome (Value × Value) := do
  let metrics ← results.member "metrics"
  return (← metrics.fetch "total_issues" (.int 0), metrics)

end CodeAudit.Analyzer

namespace CodeAudit.Analyzer.Quality

structure ToolStats (κ : Type) where
  total : Nat := 0
  byType : Keyed κ Nat := []

abbrev Stats (κ : Type) := Keyed κ (ToolStats κ)

namespace Stats

variable {κ : Type} [BEq κ]

def add (tool type : κ) (s : Stats κ) : Stats κ :=
  let old := (s.get? tool).getD {}
  s.put tool { total := old.total + 1, byType := old.byType.bump type }

def byType (s : Stats κ) : Keyed κ Nat :=
  (s.map (·.2.byType)).flatten.foldl (fun t (type, n) => t.put type ((t.get? type).getD 0 + n)) []

def toValue (s : Stats Key) : Value :=
  s.document fun t => .object [("total", .nat t.total), ("by_type", t.byType.document .nat)]

end Stats

def addTool (sum : Entries) (tool : Value) : Outcome Entries := do
  (← (← tool.member "by_type").entries).foldlM (fun (sum : Entries) (type, count) => do
    let old := (sum.lookup type).getD (.int 0)
    return Entries.put type (← Value.arith "+=" Num.add old count) sum) sum

def aggregate (stats : Value) : Outcome Value := do
  let tools ← match stats with
    | .object tools => .ok tools
    | v => .error (v.lacks "values")
  return .object (← (tools.map (·.2)).foldlM addTool [])

def weight (type : String) : Float :=
  match lowerText type with
  | "error" => 1.0
  | "warning" => 0.7
  | "convention" => 0.4
  | "refactor" => 0.3
  | "info" => 0.1
  | _ => 0.5

def coverage (results : Value) : Outcome Value := do
  let (total, metrics) ← countedMetrics results
  if total.equals (.int 0) then return .float 100.0
  let types ← (← metrics.member "issues_by_type").items
  let weighted ← types.foldlM (fun sum (type, count) => do
    let weight := weight (← type.textFor "lower")
    Value.arith "+=" Num.add sum (← Value.arith "*" Num.mul count (.float weight))) (.int 0)
  return roundScore (← meanScore weighted total)

structure Entry where
  tool : Key
  type : Key
  issue : Value

def orElse (v default : Value) : Value := if v.truthy then v else default

variable (code : Value)

def lineOf (line : Value) : Outcome Value := do
  if !line.truthy then return ""
  let source ← code.textFor "splitlines"
  match ← Value.arith "-" Num.sub line (.int 1) with
  | .int index => return ← Value.item (Text.lines source) index
  | v => throw (.wrongType ("list indices must be integers or slices, not " ++ v.kind))

def readMessage (message : Value) : Outcome Entry := do
  let tool ← message.part "source"
  let toolKey ← tool.toKey
  let type := orElse (← message.part "message_type") "unknown"
  let typeKey ← type.toKey
  let text ← message.part "message"
  let line ← message.part "line"
  let character ← message.part "character"
  return {
    tool := toolKey, type := typeKey
    issue := .object [
      ("tool", tool), ("type", type), ("message", text), ("line", orElse line (.int 0)),
      ("character", orElse character (.int 0)), ("code", ← lineOf code line)] }

def countEntries (entries : List Entry) : Stats Key := entries.foldl (fun s e => s.add e.tool e.type) []

def metricsValue (total : Nat) (stats : Stats Key) : Value :=
  .object [
    ("total_issues", .nat total), ("tools_used", .nat stats.length),
    ("issues_by_tool", stats.document fun t => .nat t.total),
    ("issues_by_type", stats.byType.document .nat)]

def report (messages : List Value) : Outcome Value := do
  let entries ← messages.mapM (readMessage code)
  let stats := countEntries entries
  let metrics := metricsValue entries.length stats
  let score ← coverage (.object [("metrics", metrics)])
  let words := if entries.isEmpty then "Aucun problème de qualité détecté"
    else "Détection de " ++ natText entries.length ++ " problème(s) de qualité"
  return .object [
    ("issues", .list (entries.map (·.issue))), ("metrics", metrics), ("tools", stats.toValue),
    ("coverage", score), ("status", "success"), ("message", words)]

def failed (f : Fault) : Value :=
  .object [
    ("status", "error"), ("message", "Erreur lors de l'analyse: " ++ f.text),
    ("issues", .list []), ("metrics", .object []), ("coverage", .int 0)]

def orFailed (r : Outcome Value) : Value :=
  match r with
  | .ok v => v
  | .error f => failed f

def fileEngine (category : Category) (lost : Bool) (work : Job → Outcome Value) : Engine where
  category := .ok category
  setup := fun job =>
    match draftText job.code with
    | .ok code => ⟨[⟨code, ".py"⟩], .ok ()⟩
    | .error f => ⟨[], .error f⟩
  analysis := fun job =>
    let gone := lost || (match draftText job.code with
      | .ok _ => false
      | .error _ => true)
    if gone then ⟨[], .error (.runtime "Fichier temporaire non disponible")⟩
    else ⟨[], .ok (orFailed (work job))⟩

def engine (messages : Outcome (List Value)) (lost : Bool) : Engine :=
  fileEngine .quality lost fun job => do report job.code (← messages)

end CodeAudit.Analyzer.Quality

/-! Vulnerabilities of code and of the packages that it requires, as told by an engine and a
database of packages. -/

namespace CodeAudit.Analyzer.Vulnerability

def weights : List (String × Float) := [("critical", 1.0), ("high", 0.7), ("medium", 0.4), ("low", 0.1)]

def coverage (results : Value) : Outcome Value := do
  let (total, metrics) ← countedMetrics results
  if total.equals (.int 0) then return .float 100.0
  let weighted ← weights.foldlM (fun sum (severity, weight) => do
    let count ← metrics.fetch severity (.int 0)
    Value.arith "+" Num.add sum (← Value.arith "*" Num.mul count (.float weight))) (.int 0)
  let score ← meanScore weighted total
  let packages ← (← results.fetch "dependencies" (.object [])).fetch "total" (.int 0)
  if ← packages.greater (.int 0) then
    return roundScore (← Value.arith "*=" Num.mul score (.float 0.9))
  else return roundScore score

def readIssue (code : Value) (issue : Value) : Outcome Value := do
  let severity ← issue.part "severity"
  let confidence ← issue.part "confidence"
  let title ← issue.part "test_id"
  let description ← issue.part "text"
  let line ← issue.part "line_number"
  let source ← if ← line.greater (.int 0) then Quality.lineOf code line else pure ""
  return .object [
    ("severity", severity), ("confidence", confidence), ("title", title),
    ("description", description), ("line", line), ("code", source)]

def countOf (severity : String) (issues : List Value) : Nat :=
  issues.countP fun issue => match issue.fetch "severity" .null with
    | .ok v => v.equals severity
    | .error _ => false

def readPackage (p : Value) : Outcome Value := do
  return .object [
    ("package", ← p.part "package"), ("version", ← p.part "version"),
    ("description", ← p.part "description"), ("severity", ← p.part "severity")]

def packageReport (found : Outcome (List Value)) : Value :=
  let told : Outcome Value := do
    let packages ← found
    return .object [
      ("vulnerabilities", .list (← packages.mapM readPackage)), ("total", .nat packages.length)]
  match told with
  | .ok v => v
  | .error f => .object [("vulnerabilities", .list []), ("total", .int 0), ("error", f.text)]

def report (job : Job) (found : List Value) (packages : Outcome (List Value)) : Outcome Value := do
  let issues ← found.mapM (readIssue job.code)
  let metrics := Value.object [
    ("total_issues", .nat issues.length), ("critical", .nat (countOf "CRITICAL" issues)),
    ("high", .nat (countOf "HIGH" issues)), ("medium", .nat (countOf "MEDIUM" issues)),
    ("low", .nat (countOf "LOW" issues))]
  let required := if Text.endsWith "requirements.txt" (← job.filename.textFor "endswith") then
      packageReport packages
    else .object []
  let score ← coverage (.object [("metrics", metrics), ("dependencies", required)])
  let words := if issues.isEmpty then "Aucun problème de sécurité détecté"
    else "Détection de " ++ natText issues.length ++ " problème(s) de sécurité"
  return .object [
    ("issues", .list issues), ("metrics", metrics), ("dependencies", required), ("coverage", score),
    ("status", "success"), ("message", words)]

def engine (found packages : Outcome (List Value)) (lost : Bool) : Engine :=
  Quality.fileEngine .security lost fun job => do report job (← found) packages

end CodeAudit.Analyzer.Vulnerability

import CodeAudit.Progress
import CodeAudit.Results
import CodeAudit.Syntax.Parser

/-! Findings of an audit. A severity is given in tenths; the score of a list of findings is one less
their mean severity. -/

namespace CodeAudit.Audit

structure Finding where
  kind : String
  message : String
  tenths : Nat
  line : Option Nat

def Finding.severity {α : Type} [OfScientific α] (f : Finding) : α := OfScientific.ofScientific f.tenths true 1

def Finding.toValue (f : Finding) : Value :=
  .object [
    ("type", f.kind), ("message", f.message), ("severity", .float f.severity),
    ("line", .int (match f.line with
      | some n => n
      | none => -1))]

section

variable {α : Type} [Add α] [Sub α] [Div α] [OfScientific α] [OfNat α 0] [NatCast α] [LT α]
  [DecidableLT α]

def baseScore (findings : List Finding) : α :=
  let total := findings.foldl (fun sum f => sum + f.severity) 0
  let score := 1.0 - total / (findings.length : α)
  if 0.0 < score then score else 0.0

end

instance natCastFloat : NatCast Float := ⟨Float.ofNat⟩

/-! The security audit of a module. Findings come in the order of the nodes, a parent before its
children. -/

open Syntax

def dangerousCalls : List (String × String) := [
  ("os.system", "Appel système direct"),
  ("subprocess.run", "Exécution de processus"),
  ("eval", "Évaluation dynamique de code"),
  ("exec", "Exécution dynamique de code")]

def dangerousImports : List (String × String) := [
  ("subprocess", "Module d'exécution de processus"),
  ("pickle", "Désérialisation non sécurisée"),
  ("marshal", "Désérialisation non sécurisée")]

def sensitiveParts : List String := ["password", "secret", "key", "token", "credential"]

def calledName (func : Node) : String :=
  match func.kind with
  | .name id _ => id
  | .attribute attr _ =>
    match (func.childIn? .value).map Node.kind with
    | some (.name id _) => id ++ "." ++ attr
    | _ => ""
  | _ => ""

variable (n : Node)

def callFindings : List Finding :=
  let name := ((n.childIn? .func).map calledName).getD ""
  match dangerousCalls.lookup name with
  | some why =>
    [{ kind := "dangerous_call", message := "Utilisation dangereuse de " ++ name ++ ": " ++ why
       tenths := 8, line := some n.line }]
  | none => []

def importFindings : List Finding :=
  (n.childrenIn .names).filterMap fun a =>
    match a.kind with
    | .alias name _ =>
      (dangerousImports.lookup name).map fun why =>
        { kind := "dangerous_import"
          message := "Import potentiellement dangereux: " ++ name ++ " - " ++ why
          tenths := 6, line := some n.line }
    | _ => none

def isSensitive (name : String) : Bool := sensitiveParts.any fun part => Text.occurs part (lowerText name)

def assignmentFindings : List Finding :=
  if ((n.childIn? .value).bind Node.textConstant?).isSome then
    (n.childrenIn .targets).filterMap fun target =>
      match target.kind with
      | .name id _ =>
        if isSensitive id then
          some { kind := "hardcoded_secret", message := "Variable sensible " ++ id ++ " assignée en dur"
                 tenths := 9, line := some n.line }
        else none
      | _ => none
  else []

def ownFindings : List Finding :=
  match n.kind with
  | .call => callFindings n
  | .importStmt => importFindings n
  | .assign => assignmentFindings n
  | _ => []

mutual

def scan : Node → List Finding
  | .mk kind span children => ownFindings (.mk kind span children) ++ scanFields children

def scanFields : List (Field × Node) → List Finding
  | [] => []
  | (_, child) :: rest => scan child ++ scanFields rest

end

structure SecurityReport where
  findings : List Finding
  score : Float

def securityScore (findings : List Finding) : Float :=
  if findings.isEmpty then 1.0 else floatRound 2 (baseScore findings)

def scanWalk : Walk where
  before := 6
  calls _ := 1
  mark := 3
  listing := 2

def auditable (i : Interpreter) (source : String) : Outcome Node := do
  let p ← i.read source
  scanWalk.check i p.tree
  return p.tree

def auditSecurity (i : Interpreter) (source : String) : SecurityReport :=
  match auditable i source with
  | .ok tree => { findings := scan tree, score := securityScore (scan tree) }
  | .error .badProgram =>
    { findings := [{ kind := "syntax_error", message := Fault.badProgram.text, tenths := 10, line := none }]
      score := 0.0 }
  | .error _ => { findings := [], score := 0.0 }

def SecurityReport.toValue (r : SecurityReport) : Value :=
  .object [("issues", .list (r.findings.map (·.toValue))), ("score", .float r.score)]

/-! The quality audit of a module. One step that fails replaces the whole report by its fault. -/

mutual

def branches : Node → Nat
  | .mk kind _ children =>
    match kind with
    | .ifStmt | .whileLoop | .forLoop | .exceptHandler _ => 1 + branchesOfFields children
    | .functionDef _ =>
      if 10 < branchesOfFields children then branchesOfFields children else 0
    | _ => branchesOfFields children

def branchesOfFields : List (Field × Node) → Nat
  | [] => 0
  | (_, child) :: rest => branches child + branchesOfFields rest

end

def complexityFindings (count : Nat) : List Finding :=
  if 20 < count then
    [{ kind := "high_complexity"
       message := "Complexité cyclomatique trop élevée (" ++ natText count ++ ")"
       tenths := 7, line := some 0 }]
  else []

def blockSize : Nat := 6

variable (lines : List String)

def lineBlocks : List (List String × Nat) :=
  (List.range (lines.length + 1 - blockSize)).map fun i => ((lines.drop i).take blockSize, i + 1)

def isBlankBlock (block : List String) : Bool := block.all fun line => line.toList.all isBlank

def addToGroup (block : List String) (line : Nat) : List (List String × List Nat) → List (List String × List Nat)
  | [] => [(block, [line])]
  | (b, ls) :: rest => if b = block then (b, ls ++ [line]) :: rest else (b, ls) :: addToGroup block line rest

def blockGroups : List (List String × List Nat) :=
  (lineBlocks lines).foldl
    (fun groups (block, line) => if isBlankBlock block then groups else addToGroup block line groups) []

def duplications : List (List Nat) := ((blockGroups lines).filter fun g => 1 < g.2.length).map (·.2)

def duplicationFindings (groups : List (List Nat)) : List Finding :=
  groups.map fun numbers =>
    { kind := "code_duplication"
      message := "Code dupliqué trouvé aux lignes " ++ Text.join ", " (numbers.map natText)
      tenths := 5, line := some (numbers.headD 0) }

def lineFindings : List Finding :=
  (lines.zip (List.range lines.length)).filterMap fun (line, i) =>
    if 79 < line.length then
      some { kind := "line_length", message := "Ligne trop longue (>79 caractères)", tenths := 3
             line := some (i + 1) }
    else none

def isSnakeCase (name : String) : Bool :=
  match name.toList with
  | [] => false
  | c :: rest =>
    let small := fun (c : Char) => c == '_' || ('a' ≤ c && c ≤ 'z')
    small c && rest.all fun c => small c || c.isDigit

def nameFindings (tree : Node) : List Finding :=
  tree.preorder.filterMap fun n =>
    match n.kind with
    | .name id .store =>
      if isSnakeCase id then none
      else some { kind := "naming_convention"
                  message := "Le nom '" ++ id ++ "' ne suit pas la convention snake_case"
                  tenths := 3, line := some n.line }
    | _ => none

mutual

def outerFunctions : Node → List Node
  | .mk kind span children =>
    match kind with
    | .functionDef _ => [.mk kind span children]
    | _ => outerFunctionsOfFields children

def outerFunctionsOfFields : List (Field × Node) → List Node
  | [] => []
  | (_, child) :: rest => outerFunctions child ++ outerFunctionsOfFields rest

end

def lineOf (n : Node) : Outcome Nat :=
  let lacking := fun (kind : String) =>
    Except.error (Fault.noAttribute ("'" ++ kind ++ "' object has no attribute 'lineno'"))
  match n.kind with
  | .arguments => lacking "arguments"
  | .comprehension => lacking "comprehension"
  | .withItem => lacking "withitem"
  | .matchCase => lacking "match_case"
  | .module => lacking "Module"
  | _ => .ok n.line

def functionSize (n : Node) : Outcome Nat := do
  let lines ← n.walk.mapM lineOf
  return lines.foldl max 0 - n.line

def functionFindings (n : Node) : Outcome (List Finding) := do
  let name := match n.kind with
    | .functionDef name => name
    | _ => ""
  let size ← functionSize n
  let args := ((n.childIn? .args).map fun a => (a.childrenIn .args).length).getD 0
  let tooLong : List Finding := if 50 < size then
      [{ kind := "function_size"
         message := "Fonction " ++ name ++ " trop longue (" ++ natText size ++ " lignes)"
         tenths := 6, line := some n.line }]
    else []
  let tooMany : List Finding := if 5 < args then
      [{ kind := "too_many_arguments", message := "Trop de paramètres dans la fonction " ++ name
         tenths := 4, line := some n.line }]
    else []
  return tooLong ++ tooMany

def commentLines : Nat := lines.countP fun line => Text.startsWith "#" (Text.strip line)

def commentRatio : Float := nearestFloat false (commentLines lines) lines.length

def commentFindings (ratio : Float) : List Finding :=
  if ratio < 0.1 then
    [{ kind := "low_comments", message := "Ratio de commentaires trop faible", tenths := 4, line := some 0 }]
  else []

structure QualityMetrics where
  complexity : Nat
  duplications : Nat
  commentRatio : Float

structure QualityReport where
  findings : List Finding
  metrics : Option QualityMetrics
  score : Float

def penalty (limit : Float) (n d : Nat) : Float :=
  let q := nearestFloat false n d
  if q < limit then q else limit

def qualityScore (findings : List Finding) (m : QualityMetrics) : Float :=
  if findings.isEmpty then 1.0
  else
    let score := baseScore findings - penalty 0.3 m.complexity 100 - penalty 0.3 m.duplications 10
    let score := if score < 1.0 then score else 1.0
    floatRound 2 (if 0.0 < score then score else 0.0)

def qualitySteps (source : String) (tree : Node) : Outcome QualityReport := do
  let lines := Text.splitOn '\n' source
  let repeated := duplications lines
  let functions ← (outerFunctions tree).mapM functionFindings
  let ratio := commentRatio lines
  let findings :=
    complexityFindings (branches tree) ++ duplicationFindings repeated ++ lineFindings lines ++
      nameFindings tree ++ functions.flatten ++ commentFindings ratio
  let metrics : QualityMetrics :=
    { complexity := branches tree, duplications := repeated.length, commentRatio := floatRound 2 ratio }
  return { findings, metrics := some metrics, score := qualityScore findings metrics }

def failedAudit (f : Fault) : QualityReport where
  findings := [{ kind := "analysis_error", message := f.text, tenths := 10, line := some 0 }]
  metrics := none
  score := 0.0

def branchWalk : Walk where
  before := 6
  calls
    | .ifStmt | .whileLoop | .forLoop | .exceptHandler _ | .functionDef _ | .constant _ => 3
    | _ => 2
  mark := 3
  listing := 1

def auditQuality (i : Interpreter) (source : String) : QualityReport :=
  match (do
      let p ← i.read source
      branchWalk.check i p.tree
      qualitySteps source p.tree) with
  | .ok report => report
  | .error f => failedAudit f

def QualityReport.toValue (r : QualityReport) : Value :=
  .object [
    ("issues", .list (r.findings.map (·.toValue))),
    ("metrics", .object (match r.metrics with
      | some m => [("complexity", .nat m.complexity), ("duplications", .nat m.duplications),
          ("comment_ratio", .float m.commentRatio)]
      | none => [])),
    ("quality_score", .float r.score)]

def auditFile (i : Interpreter) (source filename : String) : Value :=
  let lines := Text.splitOn '\n' source
  let opening := fun (word : String) => Value.nat (lines.countP fun line => Text.startsWith word (Text.strip line))
  let security := auditSecurity i source
  let quality := auditQuality i source
  .object [
    ("file", filename),
    ("code", source),
    ("stats", .object [
      ("Lignes de code", .nat lines.length),
      ("Caractères", .nat source.length),
      ("Fonctions", opening "def "),
      ("Classes", opening "class ")]),
    ("security", security.toValue),
    ("quality", quality.toValue),
    ("global_score", .float (floatRound 2 ((security.score + quality.score) / 2.0)))]

end CodeAudit.Audit

/-! The whole analysis of a file by several analyzers. Any fault gives the results of an analysis
that was not done. -/

namespace CodeAudit.Pipeline

abbrev Work := ExceptT Fault (StateM Progress.Task)

abbrev Analyzers := String → Outcome Value

def names : List String := ["bandit", "radon", "vulture", "prospector", "script", "typescript"]

def refuse (name : String) : Outcome Value :=
  if names.contains name then .error (.wrongType (name ++ " takes no code"))
  else .error (.missingKey name)

def maker : String → Outcome String
  | "bandit" => .ok "BanditAnalyzer"
  | "radon" => .ok "RadonAnalyzer"
  | "vulture" => .ok "VultureAnalyzer"
  | "script" => .ok "ScriptAnalyzer"
  | "typescript" => .ok "TypeScriptAnalyzer"
  | "prospector" =>
    .error (.wrongType "ProspectorAnalyzer.__init__() takes 1 positional argument but 2 were given")
  | name => .error (.missingKey name)

def firstTask : Progress.Task := { total := .int 100 }

def tell (u : Progress.Update) : Work Unit := modify (·.applyOrDrop u)

def reach (percentage : Int) : Work Unit := tell (.progress (.int percentage))

def status (words : String) : Work Unit := tell (.status words)

variable (a : Analyzers)

def consult (name words : String) (percentage : Int) : Work Value := do
  status words
  let told ← a name
  reach percentage
  return told

def security : Work Value := consult a "bandit" "🔍 Analyse des vulnérabilités avec Bandit..." 25

def complexity : Work Value := consult a "radon" "📊 Analyse de la complexité avec Radon..." 50

def deadCode : Work Value := consult a "vulture" "🧹 Détection du code mort avec Vulture..." 75

def quality : Work Value := consult a "prospector" "✨ Analyse de la qualité avec Prospector..." 100

def script (a : Analyzers) (r : Results) : Work (Bool × Results) := do
  let told ← a "script"
  if (← told.member "is_script").truthy then
    let issues ← told.member "issues"
    let type ← told.member "script_type"
    reach 100
    return (true, { r with issues := issues, quality := { r.quality with scriptType := type } })
  else return (false, r)

/-- Scans code for security problems. These have none of the fields that results ask for, so a scan
that finds any is given up. -/
def scan : Work Unit := do
  match a "bandit" with
  | .error _ => pure ()
  | .ok told =>
    match told.parts with
    | .ok [] => reach 50
    | _ => pure ()

def typeScript (r : Results) : Work Results := do
  status "🔍 Analyse du fichier TypeScript..."
  let told ← a "typescript"
  if (← told.fetch "error" .null).truthy then
    reach 100
    return r
  else
    let issues ← told.fetch "security_issues" (.list [])
    let quality ← told.fetch "code_quality" (.object [])
    let complexity ← quality.fetch "complexity" (.int 0)
    let functions ← quality.fetch "functions" (.list [])
    let unused ← quality.fetch "unused_code" (.object [])
    reach 100
    return { r with
      issues := issues
      quality := { r.quality with complexity := complexity, functions := functions, unusedCode := unused } }

def severities (issues : Value) : Outcome (List String) := do
  (← issues.parts).mapM fun issue => do
    return lowerText (← (← issue.fetch "severity" "").textFor "lower")

/-- Scores the results. The score asks for a limit of complexity that the settings do not have, so
there is never one. -/
def score (r : Results) : Outcome Results := do
  let _ ← severities r.issues
  throw (.noAttribute "'AnalyzerConfig' object has no attribute 'max_complexity'")

variable (now : Time.DateTime) (code filename : Value)

def attempt : Work Results := do
  status "🔍 Préparation de l'analyse..."
  reach 10
  let r ← Results.new filename now (.object []) (.object [])
  let r := { r with code := code }
  if Text.endsWith ".ts" r.file then
    let r ← typeScript a r
    score r
  else
    let (isScript, r) ← script a r
    if isScript then return r
    else
      scan a
      score r

def analyze (task : Progress.Task) : Results × Progress.Task :=
  match (attempt a now code filename).run task with
  | (.ok r, task) => (r, task)
  | (.error _, task) => (Results.notDone now, task)

def analyzeFile (path : String) (content : Option String) : Results :=
  match content, a "bandit" with
  | some code, .ok told =>
    if told.truthy then Results.notDone now
    else {
      file := path, timestamp := now, summary := Results.firstSummary .null
      code := (Text.unifyNewlines code) }
  | _, _ => Results.notDone now

end CodeAudit.Pipeline

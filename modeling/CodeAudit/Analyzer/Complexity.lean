import CodeAudit.Analyzer.Bench
import CodeAudit.Number.Written

/-! Complexity and size of code as measured by a program of its own. Ranks run from `A`
downwards. -/

namespace CodeAudit.Analyzer.Complexity

def complexityBounds : List (Int × String) := [(5, "A"), (10, "B"), (20, "C"), (30, "D"), (40, "E")]

def complexityRank (v : Value) : Outcome String :=
  let rec search : List (Int × String) → Outcome String
    | [] => .ok "F"
    | (bound, rank) :: rest => do
      if ← v.atMost (.int bound) then return rank else search rest
  search complexityBounds

def maintainabilityRank (v : Value) : Outcome String := do
  if ← v.atLeast (.int 20) then return "A"
  else if ← v.atLeast (.int 10) then return "B"
  else return "C"

def blockValue (block : Value) : Outcome Value := do
  let name ← block.member "name"
  let complexity ← block.member "complexity"
  let rank ← complexityRank (← block.member "complexity")
  let line ← block.member "lineno"
  return .object [
    ("name", name), ("complexity", complexity), ("rank", rank), ("line_number", line),
    ("end_line", ← block.fetch "endline" (← block.member "lineno")), ("type", ← block.member "type")]

def processBlocks (report : Value) : Outcome Value := do
  let files ← report.entries
  let blocks ← files.mapM fun (_, blocks) => do (← blocks.parts).mapM blockValue
  return .list blocks.flatten

def processLast (keys : List String) (report : Value) : Outcome Value := do
  let files ← report.entries
  files.foldlM (fun _ (_, measures) => do
    let found ← keys.mapM fun key => do return (key, ← measures.member key)
    return .object found) (.object [])

def processHalstead : Value → Outcome Value :=
  processLast ["h1", "h2", "N1", "N2", "vocabulary", "length", "calculated_length", "volume",
    "difficulty", "effort", "time", "bugs"]

def processLines : Value → Outcome Value :=
  processLast ["loc", "lloc", "sloc", "comments", "multi", "blank", "single_comments"]

def processMaintainability (report : Value) : Outcome Value := do
  let files ← report.entries
  files.foldlM (fun _ (_, index) => do
    let index := Value.float (← index.toFloat)
    return .object [("maintainability_index", index), ("rank", ← maintainabilityRank index)])
    (.object [])

variable (tools : Toolbox)

def measure (command : String) (process : Value → Outcome Value) (empty : Value) : Outcome Value := do
  let reply ← tools.run "radon" ("radon " ++ command)
  if !reply.output.truthy then return empty
  match ← reply.document? with
  | some report => process report
  | none => return empty

def measureAll : Outcome Value := do
  return .object [
    ("cyclomatic_complexity", ← measure tools "cc" processBlocks (.list [])),
    ("halstead_metrics", ← measure tools "hal" processHalstead (.object [])),
    ("maintainability_index", ← measure tools "mi" processMaintainability (.object [])),
    ("raw_metrics", ← measure tools "raw" processLines (.object []))]

def remedy (issue : Value) : Outcome String := do
  if ← issue.holds "complexity" then
    let c ← issue.member "complexity"
    if ← c.greater (.int 40) then return "Diviser la fonction en plusieurs fonctions plus petites"
    if ← c.greater (.int 30) then
      return "Réduire la complexité en simplifiant la logique conditionnelle"
    if ← c.greater (.int 20) then return "Considérer la refactorisation pour réduire la complexité"
    if ← c.greater (.int 10) then return "Examiner les opportunités de simplification"
  if ← issue.holds "maintainability_index" then
    let m ← issue.member "maintainability_index"
    if ← m.less (.int 10) then return "Améliorer la documentation et réduire la complexité"
    if ← m.less (.int 20) then return "Ajouter des commentaires et simplifier le code"
  if ← issue.holds "effort" then
    if ← (← issue.member "effort").greater (.int 1000) then
      return "Simplifier la logique et réduire le nombre d'opérateurs"
  return "Revoir le code pour améliorer sa maintenabilité"

def engine : Engine where
  category := .ok .complexity
  setup := fun _ => ⟨[], tools.demand "Radon n'est pas disponible" ["radon"]⟩
  analysis := withSourceFile ".py" "Erreur lors de l'analyse de complexité: " [] (measureAll tools)

end CodeAudit.Analyzer.Complexity

import CodeAudit.Analyzer.Bench
import CodeAudit.Sql

/-! Analysis of SQL. Every statement is searched for dangerous patterns and bad practice; those of
the four common types are looked at piece by piece. -/

namespace CodeAudit.Analyzer.Sql

open CodeAudit.Sql (Piece Statement)
open Pattern (text all many few word charOf)

structure Rule where
  pattern : Pattern
  kind : String
  description : String
  severity : String
  weaknesses : List String

def quote : Pattern := charOf "'\""

def dangerousRules : List Rule := [
  ⟨all [word "UNION", many .any, word "SELECT"], "sql_injection",
    "Possible injection SQL via UNION SELECT", "critical", ["CWE-89"]⟩,
  ⟨all [text "--", many .any, .textEnd], "sql_comment", "Commentaire SQL suspect", "medium", ["CWE-89"]⟩,
  ⟨all [text "/*", few .any, text "*/"], "sql_comment", "Commentaire SQL multi-ligne suspect", "medium",
    ["CWE-89"]⟩,
  ⟨all [word "OR", few .any, quote, few .any, quote, few .any, .lit '='], "sql_injection",
    "Possible injection SQL via OR condition", "critical", ["CWE-89"]⟩,
  ⟨all [word "EXEC", few .any, .lit '('], "sql_execution", "Exécution dynamique de SQL", "high",
    ["CWE-89"]⟩,
  ⟨all [word "INTO", few .any, word "OUTFILE"], "file_operation", "Écriture de fichier via SQL", "high",
    ["CWE-89"]⟩,
  ⟨word "LOAD_FILE", "file_operation", "Lecture de fichier via SQL", "high", ["CWE-89"]⟩,
  ⟨word "SYSTEM_USER", "information_disclosure", "Accès aux informations système", "medium",
    ["CWE-200"]⟩,
  ⟨all [word "CONCAT", few .any, .lit '('], "sql_injection",
    "Concaténation SQL potentiellement dangereuse", "medium", ["CWE-89"]⟩]

def practiceRules : List Rule := [
  ⟨.lit '*', "performance", "SELECT * déconseillé", "low", []⟩,
  ⟨all [word "LIKE", few .any, quote, .lit '%'], "performance", "LIKE avec wildcard au début", "low", []⟩,
  ⟨all [word "NOT", many .any, word "IN"], "performance", "NOT IN peut être lent", "low", []⟩]

def Rule.issues (r : Rule) (sql : String) : List Issue :=
  (r.pattern.findAll sql { ignoreCase := true }).map fun m =>
    { kind := r.kind, description := r.description, severity := r.severity
      line := Pattern.lineAt sql m.offset, code := String.ofList m.text, weaknesses := r.weaknesses }

def checkPatterns (rules : List Rule) (sql : String) : List Issue := rules.flatMap (·.issues sql)

def hasKeyword (w : String) (ps : List Piece) : Bool := ps.any fun p => p.isKeyword && upperText p.text = w

variable (ps : List Piece)

def firstLine : Outcome Int :=
  match ps with
  | [] => .error (.badIndex "list index out of range")
  | p :: _ => p.lineNumber

variable (kind description severity : String) (weaknesses : List String)

def statementIssue : Outcome (List Issue) := do
  return [{ kind, description, severity, line := ← firstLine ps
            code := CodeAudit.Sql.piecesText ps, weaknesses }]

def checkWhere : Outcome (List Issue) :=
  if hasKeyword "WHERE" ps then .ok [] else statementIssue ps kind description severity weaknesses

def checkSelect : Outcome (List Issue) := do
  let first ← checkWhere ps "sql_best_practice" "SELECT sans clause WHERE" "medium" []
  if hasKeyword "ORDER" ps && !hasKeyword "LIMIT" ps then
    return first ++ (← statementIssue ps "sql_best_practice" "ORDER BY sans LIMIT" "low" [])
  else return first

def checkInsert : Outcome (List Issue) :=
  let isValues := fun (p : Piece) => p.isKeyword && upperText p.text = "VALUES"
  let before := ps.takeWhile (!isValues ·)
  if before.length < ps.length && !before.any (fun p => p.isGroup && Text.occurs "(" p.text) then
    statementIssue ps "sql_best_practice" "INSERT sans liste de colonnes explicite" "medium" []
  else .ok []

def checkUpdate : Outcome (List Issue) := checkWhere ps "sql_security" "UPDATE sans clause WHERE" "high" ["CWE-89"]

def checkDelete : Outcome (List Issue) := checkWhere ps "sql_security" "DELETE sans clause WHERE" "high" ["CWE-89"]

def checkFor? (type : String) : Option (List Piece → Outcome (List Issue)) :=
  if type = "SELECT" then some checkSelect
  else if type = "INSERT" then some checkInsert
  else if type = "UPDATE" then some checkUpdate
  else if type = "DELETE" then some checkDelete
  else none

def patternIssues (sql : String) : List Issue := checkPatterns dangerousRules sql ++ checkPatterns practiceRules sql

def checkStatement (s : Statement) : Outcome (List Issue) := do
  let found := patternIssues s.text
  match checkFor? s.type with
  | some check => return found ++ (← check s.pieces)
  | none => return found

/-- The analysis, with a reader that cuts the text into statements. -/
def analyze (parse : String → Outcome (List Statement)) (sql : String) : Outcome (List Issue) := do
  return (← (← parse sql).mapM checkStatement).flatten

def remedy (issue : Value) : Outcome String := do
  let other := "Revoir la requête SQL pour plus de sécurité"
  match ← issue.member "type" with
  | .text "sql_injection" => return "Utiliser des requêtes préparées avec des paramètres liés"
  | .text "sql_comment" => return "Éviter les commentaires dans les requêtes SQL"
  | .text "sql_execution" => return "Éviter l'exécution dynamique de SQL"
  | .text "file_operation" => return "Ne pas utiliser SQL pour les opérations sur les fichiers"
  | .text "information_disclosure" => return "Limiter l'accès aux informations sensibles"
  | .text "performance" =>
    let code ← issue.member "code"
    if ← code.holds "SELECT *" then return "Spécifier explicitement les colonnes nécessaires"
    if ← code.holds "LIKE" then return "Éviter les wildcards au début des patterns LIKE"
    if ← code.holds "NOT IN" then return "Utiliser NOT EXISTS ou LEFT JOIN"
    return other
  | .text "sql_best_practice" =>
    let description ← issue.member "description"
    if ← description.holds "WHERE" then return "Ajouter une clause WHERE appropriée"
    if ← description.holds "ORDER BY" then return "Ajouter LIMIT pour limiter les résultats"
    if ← description.holds "INSERT" then return "Spécifier explicitement les colonnes dans l'INSERT"
    return other
  | _ => return other

def source (code : Value) : Outcome String :=
  match code with
  | .text s => .ok s
  | v => .error (.wrongType ("Expected text or file-like object, got <class '" ++ v.kind ++ "'>"))

def engine : Engine where
  category := .ok .sql
  setup := fun _ => ⟨[], .ok ()⟩
  analysis := fun job =>
    let result : Outcome Value := do
      let sql ← source job.code
      return .object [("security_issues", .list ((← analyze CodeAudit.Sql.parse sql).map (·.toValue)))]
    ⟨[], result.mapError fun f => .runtime ("Erreur lors de l'analyse SQL: " ++ f.text)⟩

end CodeAudit.Analyzer.Sql

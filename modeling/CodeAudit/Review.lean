import CodeAudit.Pattern.Reader

/-! Rules that find problems of TypeScript code by patterns. Those on quality are pattern texts,
which have to be read before use. -/

namespace CodeAudit.Review

open Pattern (text all oneOf many blank charOf optional)

structure Rule where
  name : String
  pattern : Pattern
  flags : PatternFlags := {}

variable (name : String)

def callOf : Pattern := all [text name, many blank, .lit '(']

def securityRules : List Rule := [
  { name := "eval_usage", pattern := callOf "eval" },
  { name := "function_constructor",
    pattern := all [text "new", Pattern.some blank, callOf "Function"] },
  { name := "dangerous_innerHTML", pattern := all [text ".innerHTML", many blank, .lit '='] },
  { name := "sql_injection",
    pattern := .alt (.seq (text "execute") (oneOf (["Sql", "Query", "Statement"].map text)))
      (.seq (text "raw") (oneOf (["Query", "Statement"].map text))) },
  { name := "command_injection", pattern := oneOf (["exec", "execSync", "spawn"].map callOf) },
  { name := "sensitive_data"
    pattern := oneOf (["password", "secret", "key", "token", "credential"].map text)
    flags := { ignoreCase := true } },
  { name := "insecure_random", pattern := callOf "Math.random" },
  { name := "prototype_pollution",
    pattern := oneOf (["Object.assign", "Object.prototype", "__proto__"].map text) },
  { name := "xss_vulnerable",
    pattern := .alt (text "document.write") (all [text ".outerHTML", many blank, .lit '=']) },
  { name := "unsafe_regex", pattern := all [text "new", Pattern.some blank, callOf "RegExp"] }]

def qualitySources : List (String × String) := [
  ("console_log", "console\\.(log|debug|info)"),
  ("any_type", ":\\s*any\\b"),
  ("empty_catch", "catch\\s*\\([^)]*\\)\\s*\x7b\x7d"),
  ("magic_numbers", "\\b\\d\x7b4,\x7d\\b"),
  ("long_function", "function\\s+\\w+\\s*\\([^)]*\\)\\s*\x7b[^\x7d]\x7b200,\x7d\x7d"),
  ("complex_condition", "if\\s*\\([^)]\x7b100,\x7d\\)"),
  ("nested_callbacks", "callback.*callback.*callback"),
  ("todo_comment", "//\\s*TODO|/\\*\\s*TODO"),
  ("unused_import", "import.*from.*\\n(?!.*\\1)"),
  ("deprecated_api", "@deprecated|@obsolete")]

def qualityRules : Outcome (List Rule) :=
  qualitySources.mapM fun (name, source) => do
    return { name := name, pattern := ← Pattern.parse source }

def securityWords : String :=
  match name with
  | "eval_usage" => "Utilisation dangereuse de eval(). Risque d'exécution de code malveillant."
  | "function_constructor" => "Construction dangereuse de fonction. Risque d'injection de code."
  | "dangerous_innerHTML" => "Utilisation non sécurisée de innerHTML. Risque XSS."
  | "sql_injection" => "Possible injection SQL. Utiliser des requêtes paramétrées."
  | "command_injection" => "Possible injection de commande. Valider les entrées."
  | "sensitive_data" => "Données sensibles potentiellement exposées."
  | "insecure_random" =>
    "Utilisation de Math.random() pour la sécurité. Utiliser crypto.getRandomValues()."
  | "prototype_pollution" => "Risque de pollution de prototype. Valider les entrées."
  | "xss_vulnerable" => "Point d'entrée XSS potentiel. Échapper les données."
  | "unsafe_regex" => "Construction non sécurisée d'expression régulière."
  | _ => "Problème de sécurité détecté"

def securityGrade : String :=
  if ["eval_usage", "sql_injection", "command_injection", "xss_vulnerable"].contains name then "HIGH"
  else if ["dangerous_innerHTML", "sensitive_data", "prototype_pollution"].contains name then "MEDIUM"
  else "LOW"

def qualityWords : String :=
  match name with
  | "console_log" => "Console.log laissé dans le code. À retirer en production."
  | "any_type" => "Utilisation du type 'any'. Spécifier un type plus précis."
  | "empty_catch" => "Bloc catch vide. Gérer ou documenter l'exception."
  | "magic_numbers" => "Nombre magique détecté. Utiliser une constante nommée."
  | "long_function" => "Fonction trop longue. Diviser en sous-fonctions."
  | "complex_condition" => "Condition trop complexe. Simplifier ou extraire."
  | "nested_callbacks" => "Callbacks imbriqués. Utiliser async/await."
  | "todo_comment" => "TODO trouvé. Planifier la résolution."
  | "unused_import" => "Import potentiellement inutilisé."
  | "deprecated_api" => "Utilisation d'API dépréciée."
  | _ => "Problème de qualité détecté"

def qualityGrade : String :=
  if ["any_type", "long_function", "complex_condition"].contains name then "HIGH"
  else if ["empty_catch", "nested_callbacks", "deprecated_api"].contains name then "MEDIUM"
  else "LOW"

end CodeAudit.Review

/-! Reviews of TypeScript code by rules. A breach is told with its line and the text around it. -/

namespace CodeAudit.Review

open Pattern (text all oneOf word)

structure Breach where
  rule : String
  line : Nat
  excerpt : String

variable (code : String)

def excerpt (m : Pattern.Match) : String :=
  Text.strip (String.ofList ((code.toList.take (m.stop + 20)).drop (m.offset - 20)))

def breaches (rules : List Rule) (code : String) : List Breach :=
  rules.flatMap fun r => (r.pattern.findAll code r.flags).map fun m =>
    { rule := r.name, line := Pattern.lineAt code m.offset, excerpt := excerpt code m }

def Breach.toValue (b : Breach) (words : String) (gradeName grade : String) : Value :=
  .object [
    ("type", b.rule), ("line", .nat b.line), ("description", words),
    (gradeName, grade), ("code", b.excerpt)]

def reviewSecurity : Value :=
  let found := breaches securityRules code
  .object [
    ("security_issues", .list (found.map fun b =>
      b.toValue (securityWords b.rule) "severity" (securityGrade b.rule))),
    ("total_issues", .nat found.length)]

def controlWord (ws : List String) : Pattern := all [.boundary, .group 1 (oneOf (ws.map text)), .boundary]

def nesting : Nat := ((Text.splitOn '\n' code).map fun line => (Text.splitOn '\x7b' line).length).foldl Nat.max 0

def complexityScore : Float :=
  let controls := (controlWord ["if", "for", "while", "switch"]).countIn code
  let functions := (word "function").countIn code
  floatRound 2 (Float.ofNat controls * 0.3 + Float.ofNat functions * 0.2 + Float.ofNat (nesting code) * 0.5)

def comment : Pattern :=
  .alt (all [text "//", Pattern.many .any, .lineEnd])
    (all [text "/*", Pattern.few (.set false [.blank, .nonBlank]), text "*/"])

def maintainabilityScore (count : Nat) : Outcome Value := do
  let lines := (Text.splitOn '\n' code).length
  let ratio := Float.ofNat (comment.countIn code) / Float.ofNat (max lines 1)
  let lengthPart := Num.min (.float (Float.ofNat lines / 1000.0)) (.int 30)
  let breachPart := Num.min (.int (count * 2)) (.int 40)
  let commentPart := Num.min (.float (ratio * 20.0)) (.int 10)
  let score ← (← (← Num.sub (.int 100) lengthPart).sub breachPart).add commentPart
  return .ofNum ((Num.max (.int 0) (Num.min (.int 100) score)).round 2)

def reviewQuality (rules : List Rule) (code : String) : Outcome Value := do
  let found := breaches rules code
  return .object [
    ("quality_issues", .list (found.map fun b =>
      b.toValue (qualityWords b.rule) "impact" (qualityGrade b.rule))),
    ("total_issues", .nat found.length), ("complexity_score", .float (complexityScore code)),
    ("maintainability_score", ← maintainabilityScore code found.length)]

/-! Plain reviews: of script code by dangerous calls, complexity, and names that occur only once; of
SQL code by its words. -/

open Pattern (text all oneOf many optional blank wordChar charOf charNotOf word)

structure Danger where
  pattern : Pattern
  severity : String
  description : String
  weakness : String

def dangers : List Danger := [
  ⟨callOf "eval", "high", "Utilisation dangereuse de eval()", "CWE-95"⟩,
  ⟨callOf "exec", "high", "Exécution de commandes système non sécurisée", "CWE-78"⟩,
  ⟨all [callOf "readFileSync", charOf "'\"", optional (text "/etc/"),
      oneOf (["passwd", "shadow", "credentials"].map text), charOf "'\""],
    "high", "Accès à des fichiers système sensibles", "CWE-732"⟩]

structure Sighting where
  danger : Danger
  line : Nat
  code : String

variable (code : String)

def sighting (d : Danger) (m : Pattern.Match) : Sighting :=
  let line := Pattern.lineAt code m.offset
  { danger := d, line, code := Text.strip ((Text.splitOn '\n' code)[line - 1]?.getD "") }

def sightings (d : Danger) : List Sighting := (d.pattern.findAll code).map (sighting code d)

def allSightings : List Sighting := dangers.flatMap (sightings code)

def reviewDangers : Value :=
  .object [("security_issues", .list ((allSightings code).map fun s =>
    .object [
      ("line", .nat s.line), ("description", s.danger.description),
      ("severity", s.danger.severity), ("cwe", s.danger.weakness),
      ("code", s.code)]))]

def branchDensity : Float :=
  let controls := (controlWord ["if", "while", "for", "switch", "catch"]).countIn code
  let signs := (Pattern.alt (text "&&") (text "||")).countIn code
  Float.ofNat (controls + signs) / Float.ofNat (max 1 (Text.splitOn '\n' code).length)

structure Mention where
  name : String
  line : Nat
  kind : String

def Mention.toValue (m : Mention) : Value := .object [("name", m.name), ("line", .nat m.line), ("type", m.kind)]

def anonymous : String := "<anonymous>"

def functionPattern : Pattern :=
  oneOf [
    all [text "function", Pattern.some blank, .group 1 (Pattern.some wordChar)],
    all [.group 2 (Pattern.some wordChar), many blank, .lit '=', many blank, text "function"],
    all [.lit '(', many blank, .lit ')', many blank, text "=>"]]

def functions : List Mention :=
  (functionPattern.findAll code).map fun m =>
    let name := match m.group? 1 with
      | some n => n
      | none => (m.group? 2).getD anonymous
    { name := name, line := Pattern.lineAt code m.offset, kind := "function" }

def variablePattern : Pattern :=
  all [.boundary, oneOf (["let", "const", "var"].map text), Pattern.some blank,
    .group 1 (Pattern.some wordChar), many blank,
    optional (all [.lit ':', many blank, Pattern.some wordChar]), many blank, .lit '=']

def importPattern : Pattern :=
  all [text "import", Pattern.some blank, .lit '\x7b', many blank,
    .group 1 (Pattern.some (charNotOf "\x7d")), many blank, .lit '\x7d']

def unusedVariables : List Mention :=
  (variablePattern.findAll code).filterMap fun m =>
    let name := (m.group? 1).getD ""
    if (word name).countIn code = 1 then
      some { name := name, line := Pattern.lineAt code m.offset, kind := "variable" }
    else none

def unusedFunctions : List Mention :=
  (functions code).filter fun f => f.name ≠ anonymous && (word f.name).countIn code = 1

def importedPattern (name : String) : Outcome Pattern := Pattern.parse ("\\b" ++ name ++ "\\b")

def importedNames (m : Pattern.Match) : List String := (Text.splitOn ',' ((m.group? 1).getD "")).map Text.strip

def imports : List Mention :=
  (importPattern.findAll code).flatMap fun m => (importedNames m).map fun name =>
    { name, line := Pattern.lineAt code m.offset, kind := "import" }

def unusedImports : Outcome (List Mention) :=
  (imports code).filterM fun i => do return (← importedPattern i.name).countIn code = 1

def reviewUsage : Outcome Value := do
  let mentions := fun (ms : List Mention) => Value.list (ms.map (·.toValue))
  return .object [("code_quality", .object [
    ("complexity", .float (branchDensity code)), ("functions", mentions (functions code)),
    ("unused_code", .object [
      ("variables", mentions (unusedVariables code)), ("functions", mentions (unusedFunctions code)),
      ("imports", mentions (← unusedImports code))])])]

def remark (type severity message : String) : Value :=
  .object [("type", type), ("severity", severity), ("message", message)]

def reviewSqlSecurity : Value :=
  let upper := upperText code
  let found :=
    (if Text.occurs "EXEC" upper then
      [remark "security" "high" "Utilisation potentiellement dangereuse de EXECUTE/EXEC"] else []) ++
    (if Text.occurs "GRANT" upper || Text.occurs "SUPER" upper then
      [remark "security" "medium" "Opération privilégiée détectée"] else [])
  .object [
    ("security_issues", .list found), ("risk_level", if found.isEmpty then "low" else "high")]

def reviewSqlPerformance : Value :=
  let upper := upperText code
  let found :=
    (if Text.occurs "SELECT *" upper then
      [remark "performance" "medium" "Utilisation de SELECT * peut impacter les performances"]
      else []) ++
    (if Text.occurs "JOIN" upper && !Text.occurs "ON" upper then
      [remark "performance" "high" "Jointure sans condition détectée"] else [])
  .object [("performance_issues", .list found), ("optimization_needed", .bool !found.isEmpty)]

def reviewSqlQuality : Value :=
  let hasComment := (Text.splitOn '\n' code).any fun line => Text.startsWith "--" (Text.strip line)
  let found :=
    (if hasComment then [] else [remark "quality" "low" "Absence de commentaires dans le code"]) ++
    [remark "quality" "low" "Mots-clés SQL devraient être en majuscules"]
  .object [("quality_issues", .list found), ("quality_score", .int (100 - found.length * 10))]

end CodeAudit.Review

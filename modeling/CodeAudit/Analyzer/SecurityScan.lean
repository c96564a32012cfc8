import CodeAudit.Analyzer.Bench
import CodeAudit.Data.Table
import CodeAudit.Text.LetterCase

/-! The rules of the security scan: each names a weakness and tells how to mend it. -/

namespace CodeAudit.Analyzer

structure SecurityRule where
  id : String
  weakness : String
  remedy : String

def commandRemedies : List (String × String) := [
  ("B102", "Ne pas utiliser exec() avec des entrées non fiables"),
  ("B103", "Utiliser subprocess.run() avec shell=False"),
  ("B104", "Éviter shell=True avec subprocess"),
  ("B105", "Ne pas coder en dur les mots de passe"),
  ("B108", "Utiliser tempfile.mkstemp() pour les fichiers temporaires"),
  ("B109", "Marquer les options de mot de passe comme secrètes"),
  ("B110", "Gérer explicitement les exceptions"),
  ("B111", "Éviter run_as_root=True"),
  ("B112", "Gérer explicitement les exceptions"),
  ("B201", "Désactiver le mode debug en production"),
  ("B301", "Utiliser json à la place de pickle"),
  ("B302", "Utiliser json à la place de marshal"),
  ("B303", "Utiliser hashlib.sha256() ou plus récent"),
  ("B304", "Utiliser des algorithmes de chiffrement forts"),
  ("B305", "Utiliser des modes de chiffrement sécurisés"),
  ("B306", "Utiliser tempfile.mkstemp()"),
  ("B307", "Ne pas utiliser eval() avec des entrées non fiables"),
  ("B308", "Valider le HTML avant mark_safe()"),
  ("B309", "Utiliser des connexions HTTPS"),
  ("B310", "Utiliser requests à la place de urllib"),
  ("B311", "Utiliser secrets pour la cryptographie"),
  ("B312", "Ne pas utiliser telnetlib"),
  ("B321", "Utiliser SFTP à la place de FTP"),
  ("B322", "Utiliser input() avec précaution"),
  ("B323", "Vérifier les certificats SSL"),
  ("B324", "Utiliser des fonctions de hachage sécurisées"),
  ("B325", "Utiliser tempfile.mkstemp()"),
  ("B401", "Ne pas utiliser telnetlib"),
  ("B402", "Utiliser SFTP à la place de FTP"),
  ("B403", "Utiliser json à la place de pickle"),
  ("B404", "Utiliser subprocess avec précaution"),
  ("B411", "Utiliser des alternatives modernes"),
  ("B412", "Utiliser requests"),
  ("B413", "Utiliser requests"),
  ("B414", "Utiliser cryptography"),
  ("B415", "Utiliser cryptography correctement"),
  ("B416", "Utiliser des algorithmes sécurisés"),
  ("B417", "Mettre à jour pyghmi"),
  ("B501", "Valider les certificats SSL"),
  ("B502", "Utiliser TLS 1.2 ou plus récent"),
  ("B503", "Configurer SSL correctement"),
  ("B504", "Spécifier la version SSL/TLS"),
  ("B505", "Utiliser des clés cryptographiques fortes"),
  ("B506", "Utiliser yaml.safe_load()"),
  ("B507", "Vérifier les clés d'hôte SSH"),
  ("B601", "Configurer paramiko de manière sécurisée"),
  ("B602", "Éviter shell=True"),
  ("B603", "Utiliser shell=False"),
  ("B604", "Éviter l'exécution de shell"),
  ("B605", "Éviter l'exécution de shell"),
  ("B606", "Utiliser des chemins absolus"),
  ("B607", "Utiliser des chemins absolus"),
  ("B608", "Utiliser des requêtes paramétrées"),
  ("B609", "Échapper les caractères spéciaux"),
  ("B610", "Éviter django.extra"),
  ("B611", "Utiliser l'ORM Django"),
  ("B701", "Activer l'autoescape Jinja2"),
  ("B702", "Valider les templates Mako"),
  ("B703", "Valider avant mark_safe()")]

def securityRules : List SecurityRule :=
  [⟨"B101", "CWE-676", "Éviter d'utiliser assert en production"⟩,
    ⟨"B106", "CWE-259", "Utiliser des variables d'environnement pour les secrets"⟩,
    ⟨"B107", "CWE-259", "Ne pas utiliser de mots de passe par défaut"⟩] ++
  (Text.words "B313 B314 B315 B316 B317 B318 B319 B320 B405 B406 B407 B408 B409 B410").map
    (⟨·, "CWE-78", "Utiliser defusedxml"⟩) ++
  commandRemedies.map fun (id, remedy) => ⟨id, "CWE-78", remedy⟩

def securityRule? (id : String) : Option SecurityRule := securityRules.find? fun r => r.id = id

end CodeAudit.Analyzer

/-! The security scan of a module: the report of a program of its own is read, and each problem is
given its weakness and a remedy. -/

namespace CodeAudit.Analyzer.SecurityScan

def ruleOf (id : Value) : Outcome (Option SecurityRule) := do
  let _ ← id.keyText
  match id with
  | .text s => return securityRule? s
  | _ => return none

variable (issue : Value)

def remedy : Outcome String := do
  let rule ← ruleOf (← issue.fetch "test_id" "")
  return (rule.map (·.remedy)).getD "Revoir le code pour la sécurité"

def weaknesses (id : Value) : Outcome (List String) := do
  return [((← ruleOf id).map (·.weakness)).getD "CWE-0"]

def formatIssue : Outcome Value := do
  let get := fun (key : String) (default : Value) => issue.fetch key default
  return .object [
    ("severity", ← get "issue_severity" ""),
    ("confidence", ← get "issue_confidence" ""),
    ("test_id", ← get "test_id" ""),
    ("test_name", ← get "test_name" ""),
    ("issue_text", ← get "issue_text" ""),
    ("line_number", ← get "line_number" (.int 0)),
    ("line_range", ← get "line_range" (.list [])),
    ("code", ← get "code" ""),
    ("filename", ← get "filename" ""),
    ("more_info", ← get "more_info" ""),
    ("cwe", .texts (← weaknesses (← get "test_id" ""))),
    ("fix_suggestion", ← remedy issue)]

def countKey (name : String) : Outcome Key := do
  (← issue.fetch name "unknown").toKey

structure Summary where
  issues : List Value := []
  bySeverity : Keyed Key Nat := []
  byConfidence : Keyed Key Nat := []
  byRule : Keyed Key Nat := []

def Summary.add (s : Summary) (issue : Value) : Outcome Summary := do
  let told ← formatIssue issue
  return {
    issues := s.issues ++ [told]
    bySeverity := s.bySeverity.bump (← countKey issue "issue_severity")
    byConfidence := s.byConfidence.bump (← countKey issue "issue_confidence")
    byRule := s.byRule.bump (← countKey issue "test_id") }

def Summary.toValue (s : Summary) (total : Nat) (date version scanner tools : Value) : Value :=
  .object [
    ("security_issues", .list s.issues),
    ("metrics", .object [
      ("total_issues", .nat total), ("by_severity", s.bySeverity.document .nat),
      ("by_confidence", s.byConfidence.document .nat), ("by_test_id", s.byRule.document .nat)]),
    ("generated_at", date),
    ("scan_info", .object [
      ("python_version", version), ("bandit_version", scanner), ("tools", tools)])]

def emptyResult : Value := Summary.toValue {} 0 "" "" "" (.list [])

def processReport (report : Value) : Outcome Value := do
  let found ← report.fetch "results" (.list [])
  let total ← found.size
  let summary ← (← found.parts).foldlM Summary.add {}
  let info ← report.fetch "scan_info" (.object [])
  return summary.toValue total (← report.fetch "generated_at" "")
    (← info.fetch "python_version" "") (← info.fetch "bandit_version" "")
    (← info.fetch "tools" (.list []))

def silentResult (reply : Reply) (empty : Value) : Value :=
  if !reply.status.equals (.int 0) && reply.complaint.truthy then
    .object [("error", .bool true), ("message", reply.complaint)]
  else empty

def scan (tools : Toolbox) : Outcome Value := do
  let reply ← tools.run "bandit" "bandit"
  if !reply.output.truthy then return silentResult reply emptyResult
  match ← reply.document? with
  | some report => processReport report
  | none => return emptyResult

def engine (tools : Toolbox) : Engine where
  category := .ok .security
  setup := fun _ => ⟨[], tools.demand "Bandit n'est pas disponible" ["bandit"]⟩
  analysis := withSourceFile ".py" "Erreur lors de l'analyse de sécurité: " [] (scan tools)

end CodeAudit.Analyzer.SecurityScan

/-! Code that is never used, as found by a program of its own. An item of no known kind is counted
in the total only. -/

namespace CodeAudit.Analyzer.DeadCode

inductive Kind where
  | ofVariable | ofFunction | ofClass | ofImport | ofProperty
deriving DecidableEq

namespace Kind

def all : List Kind := [.ofVariable, .ofFunction, .ofClass, .ofImport, .ofProperty]

def word : Kind → String
  | .ofVariable => "variable"
  | .ofFunction => "function"
  | .ofClass => "class"
  | .ofImport => "import"
  | .ofProperty => "property"

def listName : Kind → String
  | .ofVariable => "unused_vars"
  | .ofFunction => "unused_funcs"
  | .ofClass => "unused_classes"
  | .ofImport => "unused_imports"
  | .ofProperty => "unused_props"

def ofWord? (w : String) : Option Kind := all.find? fun k => k.word = lowerText w

def remedy (k : Option Kind) (name : String) : String :=
  match k with
  | some .ofImport => "Supprimer l'import inutilisé '" ++ name ++ "'"
  | some .ofVariable => "Supprimer la variable inutilisée '" ++ name ++ "' ou l'utiliser"
  | some .ofFunction => "Supprimer la fonction inutilisée '" ++ name ++ "' ou l'appeler"
  | some .ofClass => "Supprimer la classe inutilisée '" ++ name ++ "' ou l'instancier"
  | some .ofProperty => "Supprimer la propriété inutilisée '" ++ name ++ "' ou l'accéder"
  | none => "Supprimer l'élément inutilisé '" ++ name ++ "'"

end Kind

variable (item : Value)

def itemKind : Outcome (Option Kind) := do
  return Kind.ofWord? (← (← item.fetch "type" "").textFor "lower")

def remedy : Outcome String := do
  let kind ← itemKind item
  return Kind.remedy kind (← item.fetch "name" "").display

def formatItem : Outcome Value := do
  return .object [
    ("name", ← item.fetch "name" ""), ("filename", ← item.fetch "filename" ""),
    ("line_number", ← item.fetch "line_number" (.int 0)), ("size", ← item.fetch "size" (.int 0)),
    ("confidence", ← item.fetch "confidence" (.int 0)), ("message", ← item.fetch "message" ""),
    ("code", ← item.fetch "code" "")]

def readItem (total : Value) (item : Value) : Outcome (Value × Option Kind × Value) := do
  let total ← Value.arith "+=" Num.add total (← item.fetch "confidence" (.int 0))
  return (total, ← itemKind item, ← formatItem item)

def readItems : Value → List Value → Outcome (Value × List (Option Kind × Value))
  | total, [] => .ok (total, [])
  | total, item :: rest => do
    let (total, read) ← readItem total item
    let (total, others) ← readItems total rest
    return (total, read :: others)

def ofKind (k : Kind) (items : List (Option Kind × Value)) : List Value :=
  (items.filter fun i => i.1 = some k).map (·.2)

def resultValue (items : List (Option Kind × Value)) (total : Nat) (average : Value) : Value :=
  .object (Kind.all.map (fun k => (k.listName, .list (ofKind k items))) ++ [
    ("stats", .object (("total_items", .nat total) ::
      Kind.all.map (fun k => (k.listName, Value.nat (ofKind k items).length)) ++
      [("confidence_avg", average)]))])

def emptyResult : Value := resultValue [] 0 (.float 0.0)

def processReport (report : Value) : Outcome Value := do
  let count ← report.size
  let (total, items) ← readItems (.float 0.0) (← report.parts)
  if count = 0 then return resultValue items count (.float 0.0)
  let average ← Value.arith "/" (fun a b => (Num.div a b).map .float) total (.nat count)
  return resultValue items count average

def search (tools : Toolbox) : Outcome Value := do
  let reply ← tools.run "vulture" "vulture"
  if !reply.output.truthy then return SecurityScan.silentResult reply emptyResult
  match ← reply.document? with
  | some report => processReport report
  | none =>
    return .object [("error", .bool true), ("message", "Erreur lors de l'analyse des résultats")]

def impact (kind confidence : Value) : Outcome String := do
  let isOneOf := fun (names : List String) => do
    return names.contains (← kind.keyText)
  if ← confidence.atLeast (.int 90) then
    if ← isOneOf ["class", "function"] then return "high"
    else if kind.equals "import" then return "medium"
    else return "low"
  else if ← confidence.atLeast (.int 70) then
    if ← isOneOf ["class", "function", "import"] then return "medium" else return "low"
  else return "low"

def engine (tools : Toolbox) : Engine where
  category := .error (.noAttribute "DEAD_CODE")
  setup := fun _ => ⟨[], tools.demand "Vulture n'est pas disponible" ["vulture"]⟩
  analysis := withSourceFile ".py" "Erreur lors de l'analyse du code mort: " [] (search tools)

end CodeAudit.Analyzer.DeadCode

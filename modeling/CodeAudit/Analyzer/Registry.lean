import CodeAudit.Analyzer.Complexity
import CodeAudit.Analyzer.Script
import CodeAudit.Analyzer.SecurityScan
import CodeAudit.Analyzer.Sql
import CodeAudit.Analyzer.TypeScript

/-! Which analyzer serves which category, and how analyzers are made from that table. -/

namespace CodeAudit.Analyzer

inductive Maker where
  | script | deadCode | quality | typeScript | sql | complexity | securityScan | plain
deriving DecidableEq

namespace Maker

def name : Maker → String
  | .script => "ScriptAnalyzer"
  | .deadCode => "VultureAnalyzer"
  | .quality => "ProspectorAnalyzer"
  | .typeScript => "TypeScriptAnalyzer"
  | .sql => "SQLAnalyzer"
  | .complexity => "RadonAnalyzer"
  | .securityScan => "BanditAnalyzer"
  | .plain => "object"

def description : Maker → String
  | .script => "Analyseur de sécurité spécialisé pour les scripts."
  | .deadCode => "Analyseur de code mort utilisant l'outil Vulture."
  | .quality => "Analyseur de qualité de code utilisant Prospector."
  | .typeScript => "Analyseur de sécurité spécialisé pour TypeScript."
  | .sql => "Analyseur de sécurité spécialisé pour SQL."
  | .complexity => "Analyseur de complexité de code utilisant l'outil Radon."
  | .securityScan => "Analyseur de sécurité Python utilisant l'outil Bandit."
  | .plain => ""

/-- Makes an analyzer with some settings. One maker takes none, and one needs its own kind unless
they are empty. -/
def make (m : Maker) (settings : Value) : Outcome Maker :=
  match m with
  | .quality =>
    .error (.wrongType "ProspectorAnalyzer.__init__() takes 1 positional argument but 2 were given")
  | .securityScan =>
    if settings.truthy then
      .error (.noAttribute ("'" ++ settings.kind ++ "' object has no attribute 'get_analyzer_settings'"))
    else .ok m
  | _ => .ok m

def demand (tools : Toolbox) : Maker → Outcome Unit
  | .deadCode => tools.demand "Vulture n'est pas disponible" ["vulture"]
  | .typeScript => tools.demand "Outils TypeScript non disponibles" ["tsc", "eslint"]
  | .complexity => tools.demand "Radon n'est pas disponible" ["radon"]
  | .securityScan => tools.demand "Bandit n'est pas disponible" ["bandit"]
  | _ => .ok ()

def engine? (tools : Toolbox) (modeOf : String → Option Nat) : Maker → Option Engine
  | .script => some (Script.engine modeOf)
  | .deadCode => some (DeadCode.engine tools)
  | .typeScript => some (TypeScript.engine tools)
  | .sql => some Sql.engine
  | .complexity => some (Complexity.engine tools)
  | .securityScan => some (SecurityScan.engine tools)
  | .quality | .plain => none

end Maker

def Category.shown (c : Category) : String := "AnalyzerType." ++ c.name

abbrev Registry := List (Category × Maker)

namespace Registry

def default : Registry := [
  (.script, .script), (.unused, .deadCode), (.quality, .quality), (.typeScript, .typeScript),
  (.sql, .sql), (.complexity, .complexity), (.security, .securityScan)]

def put (c : Category) (m : Maker) : Registry → Registry
  | [] => [(c, m)]
  | (k, old) :: rest => if k = c then (k, m) :: rest else (k, old) :: put c m rest

variable (c : Category)

def register (m : Maker) (r : Registry) : Outcome Registry :=
  if m = .plain then .error (.badValue "L'analyseur doit hériter de BaseAnalyzer")
  else .ok (r.put c m)

variable (r : Registry)

def unregister : Registry := r.filter fun e => e.1 ≠ c

def get : Outcome Maker :=
  match r.lookup c with
  | some m => .ok m
  | none => .error (.missingKey ("Analyseur non trouvé: " ++ c.shown))

def toValue : Value := .object (r.map fun (c, m) => (c.name, m.name))

def descriptions : Value := .object (r.map fun (c, m) => (c.shown, m.description))

def create (tools : Toolbox) (c : Category) (settings : Value) (r : Registry) : Outcome Maker :=
  match r.lookup c with
  | none => .error (.security ("Type d'analyseur non supporté: " ++ c.shown))
  | some m =>
    match (do (← m.make settings).demand tools : Outcome Unit) with
    | .ok _ => .ok m
    | .error f => .error (.security ("Erreur lors de la création de l'analyseur: " ++ f.text))

end Registry

end CodeAudit.Analyzer

import CodeAudit.Config.Variables

/-! Settings of the analyzers, from a document and then from the environment. Settings that make no
sense are replaced by the usual ones. -/

namespace CodeAudit.Config

structure Thresholds where
  complexity : Value := .int 10
  cognitiveComplexity : Value := .int 15
  lineLength : Value := .int 100
  functionLength : Value := .int 50
  testCoverage : Value := .float 80.0
  vulnerabilities : Value :=
    .object [("critical", .int 0), ("high", .int 0), ("medium", .int 3), ("low", .int 5)]

namespace Thresholds

variable (t : Thresholds)

def set (name : String) (v : Value) : Thresholds :=
  match name with
  | "max_complexity" => { t with complexity := v }
  | "max_cognitive_complexity" => { t with cognitiveComplexity := v }
  | "max_line_length" => { t with lineLength := v }
  | "max_function_length" => { t with functionLength := v }
  | "min_test_coverage" => { t with testCoverage := v }
  | "max_vulnerabilities" => { t with vulnerabilities := v }
  | _ => t

def fixedNames : List String := ["__class__", "__dict__", "__weakref__"]

def setAt (key v : Value) : Outcome Thresholds :=
  match key with
  | .text name =>
    if fixedNames.contains name then .error (.wrongType (name ++ " cannot be set")) else .ok (t.set name v)
  | key => .error (.wrongType ("hasattr(): attribute name must be string, not " ++ key.kind))

def toValue : Value :=
  .object [
    ("max_complexity", t.complexity), ("max_cognitive_complexity", t.cognitiveComplexity),
    ("max_line_length", t.lineLength), ("max_function_length", t.functionLength),
    ("min_test_coverage", t.testCoverage), ("max_vulnerabilities", t.vulnerabilities)]

def check : Outcome Unit := do
  if ← t.complexity.atMost (.int 0) then throw (.badValue "max_complexity doit être positif")
  if ← t.cognitiveComplexity.atMost (.int 0) then
    throw (.badValue "max_cognitive_complexity doit être positif")
  if ← t.lineLength.atMost (.int 0) then throw (.badValue "max_line_length doit être positif")
  if ← t.testCoverage.less (.int 0) then throw (.badValue "min_test_coverage doit être entre 0 et 100")
  if ← t.testCoverage.greater (.int 100) then
    throw (.badValue "min_test_coverage doit être entre 0 et 100")

end Thresholds

structure AnalyzerSettings where
  enabled : Value := .bool true
  file : Value := .null
  options : Value := .object []

namespace AnalyzerSettings

def toValue (s : AnalyzerSettings) : Value :=
  .object [("enabled", s.enabled), ("config_file", s.file), ("options", s.options)]

def ofValue (v : Value) : Outcome AnalyzerSettings := do
  return {
    enabled := ← v.fetch "enabled" (.bool true), file := ← v.fetch "config_file" .null
    options := ← v.fetch "options" (.object []) }

def check (s : AnalyzerSettings) : Outcome Unit :=
  match s.file with
  | .text _ | .bool _ => .ok ()
  | .int n => if n.natAbs < Nat.pow 2 31 then .ok () else .error (.overflow "fd is out of range")
  | .special b => if b.kind = "bytes" then .ok () else .error (.wrongType ("no path: " ++ b.kind))
  | v => if v.truthy then .error (.wrongType ("no path: " ++ v.kind)) else .ok ()

end AnalyzerSettings

abbrev AnalyzerTable := List (Value × AnalyzerSettings)

namespace AnalyzerTable

variable (key : Value)

def touch (change : AnalyzerSettings → AnalyzerSettings) (e : Value × AnalyzerSettings) :
    Value × AnalyzerSettings := if e.1.equals key then (e.1, change e.2) else e

/-- Changes the settings under a key, the usual ones if it has none. -/
def adjust (change : AnalyzerSettings → AnalyzerSettings) (t : AnalyzerTable) : AnalyzerTable :=
  if t.any (·.1.equals key) then t.map (touch key change) else t ++ [(key, change {})]

def settings? (t : AnalyzerTable) : Option AnalyzerSettings := (t.find? (·.1.equals key)).map (·.2)

end AnalyzerTable

structure AnalyzerConfig where
  thresholds : Thresholds := {}
  analyzers : AnalyzerTable := []

namespace AnalyzerConfig

variable (c : AnalyzerConfig)

def get (key : Value) : AnalyzerSettings := (c.analyzers.settings? key).getD {}

def applyDocument (v : Value) : Outcome AnalyzerConfig := do
  if !v.truthy then return c
  let c ← if ← v.holds "thresholds" then do
      let pairs ← (← v.member "thresholds").items
      pure { c with thresholds := ← pairs.foldlM (fun t e => t.setAt e.1 e.2) c.thresholds }
    else pure c
  if ← v.holds "analyzers" then
    let pairs ← (← v.member "analyzers").items
    return { c with analyzers := ← pairs.foldlM (fun t (key, v) => do
      let s ← AnalyzerSettings.ofValue v
      return AnalyzerTable.adjust key (fun _ => s) t) c.analyzers }
  else return c

/-- What a variable sets, told by its name in small letters. -/
inductive Setting where
  | threshold (name : String)
  | analyzer (name part : String)
  | other

def Setting.ofParts : List String → Setting
  | "threshold" :: parts => .threshold (Text.join "_" parts)
  | first :: part :: parts => .analyzer first (Text.join "_" (part :: parts))
  | _ => .other

def Setting.ofName (start name : String) : Setting :=
  if Text.startsWith (start ++ "_") name then
    .ofParts (Text.splitOn '_' (lowerText (Text.drop (start.length + 1) name)))
  else .other

def Setting.isFixed : Setting → Bool
  | .threshold name => Thresholds.fixedNames.contains name
  | _ => false

def changeOf (part value : String) (s : AnalyzerSettings) : AnalyzerSettings :=
  match part with
  | "enabled" => { s with enabled := .bool (saysTrue value) }
  | "config_file" => { s with file := value }
  | _ => s

def apply (value : String) : Setting → AnalyzerConfig
  | .threshold name => { c with thresholds := c.thresholds.set name (guess value) }
  | .analyzer name part => { c with analyzers := c.analyzers.adjust name (changeOf part value) }
  | .other => c

def applyEnvironment (start : String) (env : Environment) : Outcome AnalyzerConfig :=
  if env.any fun e => (Setting.ofName start e.1).isFixed then .error (.wrongType "attribute cannot be set")
  else .ok (env.foldl (fun c (name, value) => c.apply value (.ofName start name)) c)

def usual : AnalyzerConfig where
  analyzers := ["bandit", "radon", "vulture", "prospector", "typescript"].map fun name => (.text name, {})

def check (c : AnalyzerConfig) : Outcome Unit := do
  c.thresholds.check
  c.analyzers.forM fun (_, s) => s.check

variable (document : Outcome (Option Value))

def read : Outcome AnalyzerConfig := do
  match ← document with
  | some v => applyDocument {} v
  | none => return {}

def load (start : String) (env : Environment) : AnalyzerConfig :=
  let loaded : Outcome AnalyzerConfig := do
    let c ← (← read document).applyEnvironment start env
    c.check
    return c
  loaded.toOption.getD usual

def toValue (c : AnalyzerConfig) : Value :=
  .object [
    ("thresholds", c.thresholds.toValue),
    ("analyzers", .ofPairs (c.analyzers.map fun (key, s) => (key, s.toValue)))]

end AnalyzerConfig

/-! Settings of modules, one document for each, with single settings overridden by variables of the
environment. -/

structure ModuleConfig where
  name : String
  enabled : Value
  settings : Value
  dependencies : Value

def ModuleConfig.toValue (m : ModuleConfig) : Value :=
  .object [
    ("name", m.name), ("enabled", m.enabled), ("settings", m.settings),
    ("dependencies", m.dependencies)]

structure ModuleTable where
  modules : List (String × ModuleConfig) := []
  overrides : List (String × Entries) := []

namespace ModuleTable

def readModule (name : String) (v : Value) : Outcome ModuleConfig := do
  return {
    name := name, enabled := ← v.fetch "enabled" (.bool true)
    settings := ← v.fetch "settings" (.object [])
    dependencies := ← v.fetch "dependencies" (.object []) }

variable (files : List (String × Outcome Value))

def readFiles : List (String × ModuleConfig) :=
  files.filterMap fun (file, document) =>
    if Text.endsWith ".yaml" file && !file.toList.contains '/' then
      match (do readModule (Path.stem file) (← document)) with
      | .ok m => some (m.name, m)
      | .error _ => none
    else none

def valueOf (s : String) : Value :=
  let digits := fun (s : Chars) => !s.isEmpty && s.all isDecimalDigit
  match truth? s with
  | some b => .bool b
  | none =>
    if digits s.toList then ((intOfText? s).map Value.int).getD s
    else if digits (s.toList.filter (· != '.')) then ((floatOfText? s).map Value.float).getD s
    else s

def variableStart : String := "AUDITRONAI_"

def override (table : List (String × Entries)) (name value : String) : List (String × Entries) :=
  if !Text.startsWith variableStart name then table
  else match (Text.splitOn '_' (lowerText name)).drop 1 with
    | module :: part :: parts =>
      let entries := (table.lookup module).getD []
      let entries := Entries.put (Text.join "_" (part :: parts)) (valueOf value) entries
      if (table.lookup module).isSome then
        table.map fun e => if e.1 = module then (module, entries) else e
      else table ++ [(module, entries)]
    | _ => table

def load (env : Environment) : ModuleTable where
  modules := readFiles files
  overrides := env.foldl (fun t (name, value) => override t name value) []

def get (t : ModuleTable) (name : String) : Option ModuleConfig :=
  match t.modules.lookup name, t.overrides.lookup name with
  | none, _ => none
  | some m, none => some m
  | some m, some entries =>
    match m.settings.mergeInto (.object entries) with
    | .ok settings => some { m with settings := settings }
    | .error _ => none

end ModuleTable

/-! Settings of a security scan. -/

def scanLevels : List String := ["low", "medium", "high"]

def namedTests (tests : Value) : Outcome (List Value) := do
  let trimmed ← (← tests.parts).mapM fun t => do return Text.strip (← t.textFor "strip")
  return (trimmed.filter (· ≠ "")).map .text

def scanSettings (level confidence most profile tests : Value) : Outcome Value := do
  let word := lowerText (← level.textFor "lower")
  if !scanLevels.contains word then
    throw (.badValue
      ("Niveau de scan invalide. Valeurs possibles : " ++ (Value.texts scanLevels).literal))
  let above ← (Value.float 0.0).atMost confidence
  let within ← if above then confidence.atMost (.float 1.0) else pure false
  if !within then throw (.badValue "Le niveau de confiance doit être entre 0.0 et 1.0")
  if ← most.less (.int 1) then
    throw (.badValue "Le nombre maximum de problèmes doit être positif")
  let tenths ← (← Value.arith "*" Num.mul confidence (.int 10)).toInt
  let base : Entries := [
    ("plugin_name_pattern", "*.py"), ("exclude_pattern", .null), ("recursive", .bool false),
    ("aggregate", "file"), ("level", upperText word), ("confidence", .int tenths),
    ("output_format", "json"), ("number", most), ("quiet", .bool true),
    ("ignore_nosec", .bool false)]
  let withProfile := if profile.truthy then base ++ [("profile", profile)] else base
  if tests.truthy then return .object (withProfile ++ [("tests", .list (← namedTests tests))])
  else return .object withProfile

def scanProfile : Value :=
  .object [
    ("name", "default"), ("tests", .texts ["B102", "B103", "B104", "B105", "B106", "B107"]),
    ("confidence_threshold", .float 0.8), ("severity_threshold", "high")]

/-! The security checks that are wanted, with their thresholds, and the file that holds them. -/

def defaultChecks : Value := .object [
  ("thresholds", .object [("critical", .int 0), ("high", .int 2), ("medium", .int 5)]),
  ("checks", .texts [
    "sql-injection", "xss", "code-injection", "command-injection", "path-traversal", "crypto-weak",
    "secrets-exposure", "auth-bypass", "unsafe-deserialization", "insecure-transport"]),
  ("ignore_patterns", .texts ["test_*.py", "*_test.py"])]

structure CheckFile where
  config : Value
  file : String

namespace CheckFile

def textOf (config : Value) : String := Json.write { indent := some 2 } config

/-- The checks that a file holds. Without a file the default ones are written; over one that is no
document they are in force. -/
def openFile : Option String → Outcome CheckFile
  | none => .ok { config := defaultChecks, file := textOf defaultChecks }
  | some text => do return { config := (← Json.document? text).getD defaultChecks, file := text }

def update (c : CheckFile) (new : Value) : Outcome CheckFile :=
  match c.config with
  | .object _ | .mapping _ => do return { c with config := ← c.config.mergeInto new }
  | _ => .ok c

def save (c : CheckFile) : CheckFile := { c with file := textOf c.config }

end CheckFile

/-! The settings of the whole program: variables of the environment, and a file of variables for
those that have to last. -/

structure Central where
  env : Environment
  file : Option String := none

namespace Central

def defaults : List (String × String) := [
  ("AI_SERVICE", "google"), ("OPENAI_MODEL", "gpt-4o-mini"), ("GOOGLE_MODEL", "gemini-2.0-flash-exp"),
  ("TEMPERATURE", "0.7"), ("MAX_TOKENS", "2000"), ("MAX_FILE_SIZE", "500000"), ("SECURITY_TIMEOUT", "30"),
  ("SECURITY_MAX_ISSUES", "100"), ("SECURITY_MIN_CONFIDENCE", "0.8")]

variable (c : Central)

def write (name value : String) : Central := { c with file := some (Variables.set (c.file.getD "") name value) }

/-- Takes the variables of the file into the environment and writes the missing defaults to the
file; the environment does not see those. -/
def start (env : Environment) (file : Option String) : Outcome Central := do
  let (loaded, env) := Variables.load false env (file.getD "")
  loaded
  return defaults.foldl (fun c (name, value) =>
    if (c.env.get name "").isEmpty then c.write name value else c) { env, file }

def decimal (name : String) (default : Float) : Outcome Value :=
  match c.env.lookup name with
  | some s => (floatOfText s).map .float
  | none => .ok (.float default)

def whole (name : String) (default : Int) : Outcome Value :=
  match c.env.lookup name with
  | some s => (intOfText s).map .int
  | none => .ok (.int default)

def settings : Outcome Value := do
  let word := fun name => Value.ofText? (c.env.lookup name)
  return .object [
    ("ai", .object [
      ("service", word "AI_SERVICE"), ("openai_model", word "OPENAI_MODEL"),
      ("google_model", word "GOOGLE_MODEL"), ("temperature", ← c.decimal "TEMPERATURE" 0.7),
      ("max_tokens", ← c.whole "MAX_TOKENS" 2000)]),
    ("security", .object [
      ("timeout", ← c.whole "SECURITY_TIMEOUT" 30), ("max_issues", ← c.whole "SECURITY_MAX_ISSUES" 100),
      ("min_confidence", ← c.decimal "SECURITY_MIN_CONFIDENCE" 0.8)]),
    ("analysis", .object [
      ("max_file_size", ← c.whole "MAX_FILE_SIZE" 500000),
      ("exclude_patterns", .texts (Text.splitOn ',' (c.env.get "EXCLUDE_PATTERNS" "")))])]

def get : Outcome Value :=
  match c.settings with
  | .ok v => .ok v
  | .error f => .error (.badValue ("Configuration invalide: " ++ f.text))

/-- Writes values to the file and loads it again. The file that is found then is taken to be the one
that was written. -/
def update (updates : Value) : Outcome Unit × Central :=
  match updates.entries with
  | .error f => (.error f, c)
  | .ok entries =>
    let c := entries.foldl (fun c (name, v) => c.write name v.display) c
    let (loaded, env) := Variables.load true c.env (c.file.getD "")
    (loaded, { c with env })

end Central

end CodeAudit.Config

namespace CodeAudit.Config.Network

def ofEnvironment (env : Environment) : Outcome Entries := do
  let port ← match env.lookup "STREAMLIT_SERVER_PORT" with
    | some s => intOfText s
    | none => pure 8501
  return [
    ("server_address", env.get "STREAMLIT_SERVER_ADDRESS" "localhost"),
    ("server_port", .int port),
    ("headless", .bool (saysTrue (env.get "STREAMLIT_SERVER_HEADLESS" "false"))),
    ("enable_cors", .bool true),
    ("enable_xsrf", .bool (saysTrue (env.get "STREAMLIT_SERVER_ENABLE_XSRF_PROTECTION" "true"))),
    ("external_access", .bool (saysTrue (env.get "STREAMLIT_EXTERNAL_ACCESS" "false")))]

def get (c : Entries) (name : String) : Outcome Value := (Value.object c).member name

def serverSettings (c : Entries) : Outcome Entries := do
  let xsrf := (← get c "enable_xsrf").truthy
  return [
    ("server.address", ← get c "server_address"), ("server.port", .int (← (← get c "server_port").toInt)),
    ("server.headless", .bool (← get c "headless").truthy),
    ("server.enableCORS", .bool (xsrf || (← get c "enable_cors").truthy)),
    ("server.enableXsrfProtection", .bool xsrf), ("browser.gatherUsageStats", .int 0)]

def line (name : String) (v : Value) : String :=
  let text := match v with
    | .bool b => if b then "true" else "false"
    | .int _ | .float _ => v.display
    | _ => "\"" ++ v.display ++ "\""
  name ++ " = " ++ text ++ "\n"

def file (settings : Entries) : String := String.join (settings.map fun (name, v) => line name v)

def isSafe (c : Entries) : Outcome Value := do
  if !(← get c "server_address").equals "localhost" then return .bool false
  if (← get c "external_access").truthy then return .bool false
  let xsrf ← get c "enable_xsrf"
  if !xsrf.truthy then return xsrf
  return .bool (!(← get c "enable_cors").truthy)

end CodeAudit.Config.Network

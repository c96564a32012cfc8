import CodeAudit.Data.Table
import CodeAudit.Metrics
import CodeAudit.Number.Written

/-! Plugins that review a piece of code, each with a result of its own, and the service that asks
all of them. -/

namespace CodeAudit.Plugin

inductive Kind where
  | typeScript | sql | security | metrics | plain
deriving DecidableEq

def Kind.name : Kind → String
  | .typeScript => "TypeScriptAnalysisPlugin"
  | .sql => "SQLAnalysisPlugin"
  | .security => "SecurityPlugin"
  | .metrics => "MetricsPlugin"
  | .plain => "object"

abbrev Registry (κ : Type) := Keyed κ Kind

namespace Registry

variable {κ : Type} [Label κ]

def standard : Registry String := [
  ("typescript", .typeScript), ("sql", .sql), ("security", .security), ("metrics", .metrics)]

def register (r : Registry κ) (name : κ) (kind : Kind) : Outcome (Registry κ) :=
  if kind = .plain then .error (.wrongType "Le plugin doit hériter de AnalysisPlugin")
  else .ok (r.put name kind)

def find (r : Registry κ) (name : κ) : Outcome Kind :=
  match r.get? name with
  | some kind => .ok kind
  | none => .error (.missingKey ("Plugin '" ++ Label.shown name ++ "' non trouvé"))

end Registry

def noEngine : Outcome Value :=
  .error (.wrongType "BaseAnalyzer.analyze() takes 1 positional argument but 3 were given")

variable (engine : Outcome Value)

def securityReview : Value :=
  let review : Outcome Value := do
    let results ← engine
    if ← results.holds "error" then
      let results ← results.assign "status" "error"
      let error ← results.member "error"
      results.assign "message" (("Erreur lors de l'analyse: " ++ error.display))
    else
      let results ← results.assign "status" "success"
      let issues ← results.member "issues"
      let message ← if issues.truthy then do
          pure ("Détection de " ++ natText (← issues.size) ++ " problème(s) de sécurité")
        else pure "Aucun problème de sécurité détecté"
      results.assign "message" message
  match review with
  | .ok v => v
  | .error f => .object [
      ("status", "error"), ("message", ("Erreur inattendue: " ++ f.text)),
      ("issues", .list []), ("metrics", .object []), ("coverage", .int 0)]

def noTypeScript (words : String) : Value := .object [
  ("error", words), ("security_issues", .list []), ("quality_issues", .list []),
  ("complexity_score", .int 0), ("maintainability_score", .int 0)]

def typeScriptResult (results : Value) : Outcome Value := do
  let security ← results.fetch "security_issues" (.list [])
  let quality ← results.fetch "quality_issues" (.list [])
  let complexity ← results.fetch "complexity_score" (.int 0)
  let maintainability ← results.fetch "maintainability_score" (.int 0)
  let total := (← security.size) + (← quality.size)
  let entries : Entries := [
    ("error", .null), ("security_issues", security), ("quality_issues", quality),
    ("complexity_score", complexity), ("maintainability_score", maintainability), ("total_issues", .nat total)]
  if !(← results.holds "quality") then return .object entries
  let more ← results.member "quality"
  return .object (entries ++ [("code_quality", .object [
    ("complexity", ← more.fetch "complexity_score" (.int 0)),
    ("maintainability", ← more.fetch "maintainability_score" (.int 0)),
    ("issues", ← more.fetch "quality_issues" (.list []))])])

def typeScriptReview (code filename : Value) : Outcome Value := do
  if (Text.strip (← code.textFor "strip")).isEmpty then return noTypeScript "Le code ne peut pas être vide"
  let name ← filename.textFor "endswith"
  if !Text.endsWith ".ts" name && !Text.endsWith ".tsx" name then
    return noTypeScript "Ce plugin ne prend en charge que les fichiers TypeScript (.ts/.tsx)"
  match engine >>= typeScriptResult with
  | .ok v => return v
  | .error f => return noTypeScript ("Erreur lors de l'analyse TypeScript: " ++ f.text)

def sqlReview : Value := .object [
  ("type", "sql"), ("summary", .object [("score", .float 1), ("status", "success")]),
  ("security_issues", .list []), ("code_quality", .object [("complexity", .float 0)])]

def metricsReview (code : String) : Value :=
  match Metrics.summarize .standard code with
  | .ok s => s.toValue
  | .error f => Metrics.failedSummary f

def Kind.review (kind : Kind) (code : String) (filename : Value) : Outcome Value :=
  match kind with
  | .typeScript => typeScriptReview noEngine code filename
  | .sql => .ok sqlReview
  | .security => .ok (securityReview noEngine)
  | .metrics => .ok (metricsReview code)
  | .plain => .error (.noAttribute "'object' object has no attribute 'analyze'")

abbrev Reviewers := List (String × (String → Value → Outcome Value))

def Registry.reviewers (r : Registry String) : Reviewers := r.map fun (name, kind) => (name, kind.review)

def reviewAll (plugins : Reviewers) (code filename : Value) : Outcome Value := do
  let text ← code.textFor "strip"
  if (Text.strip text).isEmpty then throw (.badValue "Le code ne peut pas être vide")
  return .object (plugins.foldl (fun answers (name, review) =>
    let answer := match review text filename with
      | .ok v => v
      | .error f => .object [("error", f.text)]
    Entries.put name answer answers) [("file", filename), ("code", code)])

/-! Plugins of the server. A plugin is started when it is registered and cleaned up when it is taken
out; either may fail. A call that runs an extension is a sequence of stages with a suspension at the
end of each. -/

/-- A plugin. Its number tells it from others of its name. Which calls of its hooks fail is told by
how many hooks were called before. -/
structure Hosted (κ : Type) where
  name : κ
  description : Value := ""
  version : Value := "1.0.0"
  enabled : Bool := true
  id : Nat := 0
  failsStart : Nat → Bool := fun _ => false
  failsCleanup : Nat → Bool := fun _ => false

def Hosted.toValue (p : Hosted Key) : Value := .object [
  ("name", p.name.value), ("description", p.description), ("version", p.version), ("enabled", .bool p.enabled)]

inductive Hook where
  | started (id : Nat) (ok : Bool)
  | cleaned (id : Nat) (ok : Bool)
deriving DecidableEq

structure Host (κ : Type) where
  plugins : Keyed κ (Hosted κ) := []
  directories : List (List String) := []
  hooks : List Hook := []

namespace Host

variable {κ : Type} [BEq κ]

def register (h : Host κ) (p : Hosted κ) : Host κ :=
  if h.plugins.has p.name then h
  else
    let failed := p.failsStart h.hooks.length
    let h := { h with hooks := h.hooks ++ [.started p.id (!failed)] }
    if failed then h else { h with plugins := h.plugins.put p.name p }

def clean (h : Host κ) (p : Hosted κ) : Host κ :=
  { h with hooks := h.hooks ++ [.cleaned p.id (!p.failsCleanup h.hooks.length)] }

def unregister (h : Host κ) (name : κ) : Host κ :=
  match h.plugins.get? name with
  | none => h
  | some p =>
    if p.failsCleanup h.hooks.length then h.clean p
    else { h.clean p with plugins := h.plugins.erase name }

def cleanup (h : Host κ) : Host κ := h.plugins.foldl (fun h e => h.clean e.2) h

def enable (h : Host κ) (name : κ) (enabled : Bool) : Outcome (Host κ) :=
  match h.plugins.get? name with
  | some p => .ok { h with plugins := h.plugins.put name { p with enabled } }
  | none => .error (.noAttribute "'NoneType' object has no attribute 'enable'")

def enabled (h : Host κ) : Keyed κ (Hosted κ) := h.plugins.filter fun e => e.2.enabled

def addDirectory (h : Host κ) (path : List String) (isThere : Bool) : Host κ :=
  if isThere && !h.directories.contains path then { h with directories := h.directories ++ [path] } else h

end Host

structure Extension where
  name : Value
  ready : Nat → Option Value := fun _ => some (.bool true)
  fails : Bool := false

inductive Act where
  | readied (id : Nat)
  | ran (id : Nat)
  | cleaned (id : Nat)

structure Manager where
  extensions : Table Extension := []
  instances : Table Nat := []
  made : Nat := 0
  acts : List Act := []

inductive Stage where
  | start
  | readying (id : Nat)
  | running (id : Nat)
  | done (answer : Value)

structure Call where
  key : String
  args : Entries := []
  stage : Stage := .start

def Call.answer (c : Call) : Value :=
  match c.stage with
  | .done v => v
  | _ => .null

namespace Manager

def keyOf (name : Value) : String :=
  match name with
  | .bool _ | .float _ =>
    match name.toInt with
    | .ok n => if name.equals (.int n) then (Value.int n).literal else name.literal
    | .error _ => name.literal
  | v => v.literal

variable (m : Manager)

def install (e : Extension) : Manager := { m with extensions := m.extensions.put (keyOf e.name) e }

def make : Nat × Manager := (m.made, { m with made := m.made + 1 })

def getsReady (key : String) (id : Nat) : Bool := ((m.extensions.get? key).bind (·.ready id)).any Value.truthy

def settle (key : String) (id : Nat) : Bool × Manager :=
  if m.getsReady key id then
    (true, { m with instances := m.instances.put key id, acts := m.acts ++ [.readied id] })
  else (false, m)

def initiate (name : Value) : Bool × Manager :=
  if m.extensions.has (keyOf name) then
    let (i, m) := m.make
    m.settle (keyOf name) i
  else (false, m)

def enter (c : Call) : Manager × Call :=
  match m.instances.get? c.key with
  | some i => ({ m with acts := m.acts ++ [.ran i] }, { c with stage := .running i })
  | none => (m, { c with stage := .done .null })

def advance (c : Call) : Manager × Call :=
  match c.stage with
  | .start =>
    if m.instances.has c.key then m.enter c
    else if m.extensions.has c.key then
      let (i, m) := m.make
      (m, { c with stage := .readying i })
    else (m, { c with stage := .done .null })
  | .readying i =>
    match m.settle c.key i with
    | (true, m) => m.enter c
    | (false, m) => (m, { c with stage := .done .null })
  | .running _ =>
    let answer := (m.extensions.get? c.key).filter fun e => !e.fails
    (m, { c with stage := .done (if answer.isSome then .object c.args else .null) })
  | .done _ => (m, c)

def advanceAt (calls : List Call) (place : Nat) : Manager × List Call :=
  match calls[place]? with
  | some c =>
    let (m, c) := m.advance c
    (m, calls.set place c)
  | none => (m, calls)

def schedule (calls : List Call) (places : List Nat) : Manager × List Call :=
  places.foldl (fun (m, calls) place => m.advanceAt calls place) (m, calls)

def execute (name : Value) (args : Entries) : Value × Manager :=
  let call : Call := { key := keyOf name, args }
  let (m, calls) := m.schedule [call] [0, 0, 0]
  ((calls.map Call.answer).headD .null, m)

def cleanup : Manager := { m with instances := [], acts := m.acts ++ m.instances.map fun e => .cleaned e.2 }

def names : List Value := m.extensions.map (·.2.name)

def activeNames : List Value := m.instances.filterMap fun (key, _) => (m.extensions.get? key).map (·.name)

end Manager

end CodeAudit.Plugin

import CodeAudit.Assistant
import CodeAudit.Command.Request
import CodeAudit.Config.Settings
import CodeAudit.Plugin
import CodeAudit.Queue
import CodeAudit.Yaml.Reader

/-! Requests about settings and prompts. -/

namespace CodeAudit.Command

def contentOf (v : Value) : String :=
  match v with
  | .text s => s
  | v => Json.write { ascii := false } v

def extensionOf (spec : Value) : Option Plugin.Extension := do
  let config ← (spec.member "config").toOption
  let document ← (Yaml.parse "plugin.yaml" (contentOf config)).toOption
  if isOn spec "no_code" || hasField spec "text" then failure
  let name ← (document.member "name").toOption
  let _ ← name.keyText.toOption
  return {
    name, ready := fun _ => if isOn spec "raise_init" then none else some (field spec "init" (.bool true))
    fails := isOn spec "raise_exec" }

def convertValue : Query := fun input => do
  match ← input.member "value" with
  | .text s => return Config.guess s
  | _ => throw badCall

def moduleConfig : Query := fun input => do
  let files := (objectField input "files").map fun (name, v) => (name, Yaml.parse name (contentOf v))
  let table := Config.ModuleTable.load files (environmentOf input)
  let names ← (← (field input "query" (.list [])).parts).mapM Value.asKey
  let find := fun (name : Value) => match name with
    | .text s => ((table.get s).map (·.toValue)).getD .null
    | _ => .null
  return .object [
    ("overrides", .object (table.overrides.map fun (m, e) => (m, .object e))),
    ("configs", .ofPairs (names.map fun n => (n, find n)))]

def scanConfig : Query := fun input => do
  let arg ← arguments (← input.member "args") ["scan_level", "min_confidence", "max_issues"]
    [("profile", .null), ("tests", .null)]
  let config ← Config.scanSettings (arg "scan_level") (arg "min_confidence") (arg "max_issues")
    (arg "profile") (arg "tests")
  return .object [("config", config), ("profile", Config.scanProfile)]

def networkSecurity : Query := fun input => do
  let start ← Config.Network.ofEnvironment (environmentOf input)
  let config := Entries.merge start (objectField input "set")
  let settings ← Config.Network.serverSettings config
  return .object [
    ("config", .object config), ("streamlit", .object settings), ("secure", ← Config.Network.isSafe config),
    ("toml", Text.unifyNewlines (Config.Network.file settings))]

def libraryOf (input : Value) : Outcome Prompt.Library := do
  Prompt.Library.ofValue (← match input.member "templates" with
    | .ok v => Yaml.parse "t.yaml" (contentOf v)
    | .error _ => .ok Prompt.standard)

def prompt : Query := fun input => do
  if isOn input "missing" then throw (.missingFile "")
  let library ← libraryOf input
  let name ← input.member "name"
  (library.get name (← freeArguments input "vars" ["prompt_name", "self"])).1

/-! Requests about what is kept in files, about the queue of analyses and about log records. -/

open Config Journal

def fileOf (input : Value) : Option String :=
  match input.member "file" with
  | .ok (.text s) => some s
  | .ok v => some (Json.write {} v)
  | .error _ => none

variable (clock : Float)

def checkSettings : Query := fun input => do
  let c ← CheckFile.openFile (fileOf input)
  let c ← match input.member "set" with
    | .ok new => if new.truthy then c.update new else pure c
    | .error _ => pure c
  let c := if isOn input "save" then c.save else c
  return .object [("config", c.config), ("file", Text.unifyNewlines c.file)]

def givenHandler (data : Value) : Queue.Ending :=
  match data.member "fail" with
  | .ok words => .plain words.display
  | .error _ => .returns data

def countField (input : Value) (key : String) (default : Int) : Outcome Int :=
  match field input key (.int default) with
  | .int n => .ok n
  | .bool b => .ok (if b then 1 else 0)
  | v => .error (v.cannot "cannot be interpreted as an integer")

def queueRun : Query := fun input => do
  let items ← (← input.member "items").parts
  let limit ← countField input "max" 5
  if limit < 0 then throw (.badValue "Semaphore initial value must be >= 0")
  let count ← countField input "workers" 3
  let micros := Time.microsOfSeconds clock
  let q : Queue := items.foldl (fun q data => q.enqueue micros data) { permits := limit.toNat }
  let started := q.start count.toNat
  let drained := started.drain givenHandler
  let stopped := drained.stop
  return .object [
    ("ids_prefixed", .bool (q.pending.all fun a => Text.startsWith "analysis_" a.id)),
    ("pending", .nat q.pending.length), ("workers", .nat started.workers.length),
    ("handled", .list (drained.handed.map (·.data))), ("left", .nat drained.pending.length),
    ("after", .nat stopped.workers.length), ("running", .bool stopped.running)]

def leastOf (v : Value) : Outcome Nat :=
  match v with
  | .int n => .ok n.toNat
  | .bool b => .ok b.toNat
  | .text s =>
    match levels.get? s with
    | some n => .ok n
    | none => .error (.badValue ("Unknown level: " ++ quoted s))
  | v => .error (.wrongType ("Level not an integer or a valid string: " ++ v.literal))

def withoutPlace (r : Record) (entries : Entries) : Value :=
  let entries := entries.filter fun e => !(["timestamp", "module", "line"].contains e.1)
  .object (if (r.extra.lookup "function").isSome then entries else Entries.erase "function" entries)

def takenRecords (log : Sink) (records : List Record) : Value :=
  .list ((records.filter fun r => log.takes r.level).map fun r => withoutPlace r (log.entries r))

def logRecords : Play := fun input => do
  let log : Sink := {
    name := "sec", least := ← leastOf (field input "level" "DEBUG"), fields := objectField input "fields" }
  if (log.fields.lookup "self").isSome then throw badCall
  if isOn input "timed" then
    let arg := field input "arg" .null
    let fault := if (field input "timed" .null).equals "raise" then some (Fault.badValue arg.display) else none
    let record := runRecord "f" 0 (fault.map fun f => ("ValueError", f.text))
    return .object [("returned", fault.elim (.value arg) .fault), ("records", .value (takenRecords log [record]))]
  if isOn input "exc" then
    let record : Record := {
      level := 40, message := textField input "description" "error"
      error := some ("ValueError", textField input "exc" "") }
    return .value (takenRecords log [record])
  let record ← securityRecord (← input.member "event") (← input.member "description")
    (field input "severity" "INFO") (field input "extra_fields" .null)
  return .value (takenRecords log [record])

end CodeAudit.Command

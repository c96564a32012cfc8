import CodeAudit.Audit
import CodeAudit.Command.Request
import CodeAudit.Incident

/-! Requests about the results of analyses, their progress and their incidents. -/

namespace CodeAudit.Command

def resultsObject (r : Results) : Value := .object (r.toEntries ++ [("filename", .text r.filename)])

def withoutTime (v : Value) : Value :=
  match v with
  | .object entries => .object (Entries.erase "timestamp" entries)
  | v => v

variable (now : Time.DateTime)

def resultsOps : Play := fun input =>
  play input (none : Option Results) fun state name op =>
    let made := fun (r : Outcome Results) (answer : Results → Value) =>
      attempt state r fun r => (.ok (answer r), some r)
    match name with
    | "new" =>
      let summary := field op "summary" (.object [])
      let metadata := field op "metadata" (.object [])
      made (do Results.new (← op.member "file") now summary metadata) fun _ => .null
    | "default" => made (.ok (Results.notDone now)) fun r => withoutTime (resultsObject r)
    | "from_dict" => made (do Results.ofValue (← op.member "data")) resultsObject
    | other =>
      match state with
      | none => (.error (.noAttribute other), none)
      | some r =>
        match other with
        | "set_code" => made (do return { r with code := ← op.member "code" }) fun _ => .null
        | "to_dict" => look state (.ok (resultsObject r))
        | "add" => attempt state (do SecurityIssue.ofValue (← op.member "issue")) fun issue =>
          let (answer, r) := r.add issue
          (answer.map fun _ => r.summary, some r)
        | "raw" => made (do
            let issues ← (← op.member "issues").parts
            issues.foldlM (fun r issue => r.appendIssue issue) r) fun _ => .null
        | "by_severity" | "by_type" => look state (do
            let key := if other = "by_type" then "type" else "severity"
            return .list (← r.issuesWith key (← op.member "v")))
        | "complex" => look state (do
            return .list (← r.complexFunctions (field op "threshold" (.float 10.0))))
        | "quality" => made (do
            let settings ← (← op.member "set").entries
            return { r with quality := settings.foldl (fun q (k, v) => q.set k v) r.quality }) fun _ => .null
        | "update" => made r.update (·.summary)
        | _ => unknownStep state other

def placeOf (b : Progress.Board) (op : Value) : Outcome Int := do
  let h := field op "h" (.int 0)
  match h.whole? with
  | some place =>
    let _ ← b.get place
    return place
  | none => throw (.wrongType ("list indices must be integers or slices, not " ++ h.kind))

def progressOps : Play := fun input =>
  let queued := (field input "kind" "sync").equals "async"
  let start : Progress.Board := {
    queued := queued, trackers := [{ task := { total := field input "total" (.int 0) } }] }
  play input start fun b name op =>
    let v := op.member "v"
    let told : Outcome Unit × Progress.Board :=
      match placeOf b op, name, v with
      | .ok place, "meta", .ok v => b.remark place v
      | _, _, _ => (.ok (), b)
    let next : Outcome Progress.Board := do
      let place ← placeOf b op
      match name with
      | "setup" => b.start place
      | "progress" => do b.tell place (.progress (← v))
      | "status" => do b.tell place (.status (← v))
      | "details" => do b.tell place (.details (← v))
      | "complete" => b.tell place .complete
      | "error" => do b.tell place (.error (← v))
      | "cleanup" => b.stop place
      | "sub" => do
        let _ ← op.member "name"
        b.divide place (← op.member "total")
      | "meta" => do
        let _ ← v
        return told.2
      | other => .error (.missingKey other)
    attempt b next fun b => (do told.1; b.toValue, b)

def contextOf (v : Value) : Outcome (Option Incident.Context) := do
  match v with
  | .object entries =>
    let get := fun (key : String) => (entries.lookup key).getD .null
    let timestamp ← match entries.lookup "timestamp" with
      | some (.text s) => Time.parse s
      | some _ => .error (.wrongType "fromisoformat: argument must be str")
      | none => .ok now
    return some {
      timestamp := timestamp, file := get "file", line := get "line", function := get "function"
      trace := get "stack_trace", info := (entries.lookup "additional_info").getD (.object []) }
  | _ => return none

def incidentOf (input : Value) : Outcome Incident := do
  let severity ← (field? input "severity").mapM Incident.Severity.ofValue
  let category ← (field? input "category").elim (.ok .unknown) Incident.Category.ofValue
  let name := (← input.member "kind").display
  let only := fun (taken : List String) => do
    for key in ["category", "analyzer_name", "vulnerability_type", "cwe_ids"] do
      if hasField input key && !taken.contains key then
        throw (.wrongType (name ++ ".__init__() got an unexpected keyword argument '" ++ key ++ "'"))
  let need := fun (key : String) => match field? input key with
    | some v => .ok v
    | none => .error (.wrongType (name ++ ".__init__() missing 1 required positional argument: '" ++ key ++ "'"))
  let kind ← match name with
    | "AnalysisError" => do
      only ["category"]
      pure (Incident.Kind.analysis category)
    | "ConfigurationError" => do
      only []
      pure Incident.Kind.configuration
    | "AnalyzerError" => do
      only ["analyzer_name"]
      pure (Incident.Kind.analyzer (← need "analyzer_name"))
    | "SecurityError" => do
      only ["vulnerability_type", "cwe_ids"]
      pure (Incident.Kind.security (← need "vulnerability_type") (field input "cwe_ids" .null))
    | other => throw (.noAttribute other)
  let cause := match field input "original" .null with
    | .null => none
    | v => some v.display
  Incident.make kind (← input.member "message").display severity
    (← contextOf now (field input "context" .null)) cause now

def errorNew : Query := fun input => do
  let e ← incidentOf now input
  let timed := hasField (field input "context" .null) "timestamp"
  let shown := match e.toValue with
    | .object entries => Value.object (entries.map fun (k, v) =>
        if k = "context" && !timed then (k, withoutTime v) else (k, v))
    | v => v
  return .object [("dict", shown), ("text", e.text)]

def errorWrap : Query := fun input => do
  let name ← input.member "name"
  let ending := match field input "raises" .null with
    | .null => Incident.Ending.answer (field input "arg" .null)
    | raises =>
      if (field raises "kind" .null).equals "RuntimeError" then
        .fault (.runtime (field raises "message" .null).display)
      else match incidentOf now raises with
        | .ok e => .incident e
        | .error f => .fault f
  match Incident.guarded name ending now with
  | .ok v => return v
  | .error e =>
    if isOn input "handler" then
      return .object [
        ("handled", e.kind.name), ("text", e.message), ("info", e.context.info)]
    else throw (.incident e.kind.name e.message)

def analyzersOf (input : Value) : Pipeline.Analyzers := fun name =>
  match field? (field input "fake" (.object [])) name with
  | some told => toldOr told "raise" told
  | none => Pipeline.refuse name

def mainAnalyzer : Query := fun input => do
  let a := analyzersOf input
  let code := field input "code" ""
  let filename := field input "filename" "code.py"
  let shown := fun (v : Value) (t : Progress.Task) =>
    Value.object [("value", v), ("step", t.current), ("status", t.status)]
  let running := fun (w : Pipeline.Work Value) => do
    let (r, t) := w.run Pipeline.firstTask
    return shown (← r) t
  let fresh := Results.new filename now (.object []) (.object [])
  let withResults := fun (w : Results → Pipeline.Work (Value × Results)) => do
    let r ← fresh
    running (do
      let (returned, r) ← w r
      return .object [("returned", returned), ("results", withoutTime r.toValue)])
  match (← input.member "call").display with
  | "analyze" =>
    let (r, t) := Pipeline.analyze a now code filename Pipeline.firstTask
    return shown (withoutTime r.toValue) t
  | "analyze_file" =>
    let content := match input.member "code" with
      | .ok (.text s) => some s
      | _ => none
    let r := Pipeline.analyzeFile a now filename.display content
    return shown (withoutTime r.toValue) Pipeline.firstTask
  | "score" =>
    let r ← Pipeline.score { ← fresh with issues := field input "issues" (.list []) }
    return shown (withoutTime r.toValue) Pipeline.firstTask
  | "script" => withResults fun r => do
    let (found, r) ← Pipeline.script a r
    return (.bool found, r)
  | "python" => withResults fun r => do
    Pipeline.scan a
    return (.null, r)
  | "typescript" => withResults fun r => do return (.null, ← Pipeline.typeScript a r)
  | "security" => running (Pipeline.security a)
  | "complexity" => running (Pipeline.complexity a)
  | "dead_code" => running (Pipeline.deadCode a)
  | "quality" => running (Pipeline.quality a)
  | "get" =>
    let names ← (← input.member "names").parts
    return .texts (← names.mapM fun name => Pipeline.maker name.display)
  | other => throw (.missingKey other)

end CodeAudit.Command

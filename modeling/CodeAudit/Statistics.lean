import CodeAudit.Config.Variables
import CodeAudit.Data.Table
import CodeAudit.Time.DateTime

/-! The history of analyses, and the file to which it is written after every change. A file that
cannot be read counts as an empty history. -/

namespace CodeAudit.History

open Time

structure Record where
  time : DateTime
  filename : Value
  score : Value
  issues : Value
  complexity : Value
  details : Value

namespace Record

def toValue (r : Record) : Value := .object [
  ("timestamp", r.time.text), ("filename", r.filename), ("score", r.score),
  ("issues_count", r.issues), ("complexity", r.complexity), ("details", r.details)]

def ofValue (v : Value) : Outcome Record := do
  let time ← match ← v.member "timestamp" with
    | .text s => Time.parse s
    | _ => throw (.wrongType "fromisoformat: argument must be str")
  return {
    time, filename := ← v.member "filename", score := ← v.member "score", issues := ← v.member "issues_count",
    complexity := ← v.member "complexity", details := ← v.member "details" }

end Record

def layout : Json.Style := { indent := some 2 }

variable (records : List Record)

def fileText : String := (Json.draft layout Json.maxDepth 0 (.list (records.map Record.toValue))).text

def readFile (text : String) : Outcome (List Record) := do
  (← (← Json.parse text).parts).mapM Record.ofValue

def recordsOf : Option String → List Record
  | none => []
  | some text => (readFile text).toOption.getD []

def isMixed : Bool := records.any (·.time.offset.isSome) && records.any (·.time.offset.isNone)

def newestFirst : Outcome (List Record) :=
  if isMixed records then .error (.wrongType "can't compare offset-naive and offset-aware datetimes")
  else .ok (records.mergeSort fun a b => decide (b.time.toMicros ≤ a.time.toMicros))

def limited {α : Type} (limit : Value) (items : List α) : Outcome (List α) :=
  if !limit.truthy then .ok items
  else match limit with
    | .bool _ => .ok (items.take 1)
    | .int n => .ok (items.take (if n < 0 then (items.length + n).toNat else n.toNat))
    | _ => .error (.wrongType "slice indices must be integers or None or have an __index__ method")

end History

structure History where
  records : List History.Record := []
  file : Option String := none

namespace History

def openFile (file : Option String) : History := { records := recordsOf file, file }

def save (h : History) : History := { h with file := some (fileText h.records) }

def add (h : History) (r : Record) : History := save { h with records := h.records ++ [r] }

def clear (h : History) : History := save { h with records := [] }

def newest (h : History) (limit : Value) : Outcome (List Record) := do limited limit (← newestFirst h.records)

end CodeAudit.History

/-! Figures of use, written to a file after every change unless they are switched off. Analyses are
also written into a history; what a reader is shown of both is asked for by name. -/

namespace CodeAudit

structure Usage where
  enabled : Bool
  stats : Value
  file : Option String

namespace Usage

def initial : Value := .object [
  ("total_analyses", .int 0), ("analyses_by_service", .object []), ("analyses_by_date", .object []),
  ("errors", .int 0)]

variable (env : Config.Environment)

def isEnabled : Bool := Config.saysTrue (env.get "ENABLE_USAGE_STATS" "true")

def statsOf : Option String → Value
  | none => initial
  | some text => (Json.parse text).toOption.getD (.object [])

def openFile (file : Option String) : Usage :=
  { enabled := isEnabled env, stats := statsOf file, file }

variable (u : Usage)

def save : Usage := { u with file := some (Json.write { indent := some 2 } u.stats) }

def increment (stats : Value) (name : String) : Outcome Value := do
  stats.assign name (← Value.arith "+" Num.add (← stats.member name) (.int 1))

def count (stats : Value) (table : String) (key : Value) : Outcome Value := do
  let counts ← stats.member table
  let n ← Value.arith "+" Num.add (← counts.fetchAt key (.int 0)) (.int 1)
  stats.assign table (← counts.assignAt key n)

/-- Changes the figures one after the other. A change that fails stops the rest; only a full run is
written to the file. -/
def apply (u : Usage) : List (Value → Outcome Value) → Outcome Unit × Usage
  | [] => (.ok (), u.save)
  | change :: rest =>
    match change u.stats with
    | .error f => (.error f, u)
    | .ok stats => apply { u with stats } rest

def recordAnalysis (now : Time.DateTime) (service : Value) : Outcome Unit × Usage :=
  if u.enabled then
    u.apply [
      (increment · "total_analyses"), (count · "analyses_by_service" service),
      (count · "analyses_by_date" ((Time.Date.ofDays now.day).text))]
  else (.ok (), u)

def recordError : Outcome Unit × Usage := if u.enabled then u.apply [(increment · "errors")] else (.ok (), u)

def views : Table (Usage → Value) := []

def ask (name : String) : Outcome Value :=
  match views.get? name with
  | some view => .ok (view u)
  | none => .error (.noAttribute ("'UsageStats' object has no attribute '" ++ name ++ "'"))

end Usage

namespace History

def orders : Table (History → History) := [("clear_history", clear)]

def tell (h : History) (name : String) : Outcome History :=
  match orders.get? name with
  | some order => .ok (order h)
  | none => .error (.noAttribute ("'AnalysisHistory' object has no attribute '" ++ name ++ "'"))

def Record.item (_ : Record) (_ : String) : Outcome Value :=
  .error (.wrongType "'AnalysisRecord' object is not subscriptable")

def total (records : List Record) (name : String) : Outcome Value :=
  records.foldlM (fun sum r => do Value.arith "+" Num.add sum (← r.item name)) (.int 0)

def average (records : List Record) (name : String) : Outcome Value := do
  if records.isEmpty then return .int 0
  Value.arith "/" (fun a b => (Num.div a b).map .float) (← total records name) (.nat records.length)

end History

structure Statistics where
  history : History
  usage : Usage

namespace Statistics

def entryOr (v : Value) (key : String) (default : Value) : Value :=
  match v with
  | .object entries => (entries.lookup key).getD default
  | _ => default

def itemCount : Value → Nat
  | .list items => items.length
  | _ => 0

def recordOf (now : Time.DateTime) (result : Value) : Outcome History.Record := do
  let filename ← result.fetch "file" "unknown"
  let security ← result.fetch "security" (.object [])
  return {
    time := now, filename, score := entryOr (entryOr security "summary" (.object [])) "score" (.float 0)
    issues := .nat (itemCount (entryOr security "security_issues" (.list [])))
    complexity := entryOr (entryOr security "code_quality" (.object [])) "complexity" (.float 0)
    details := result }

variable (s : Statistics) (now : Time.DateTime)

def record (result service : Value) : Outcome Unit × Statistics :=
  match recordOf now result with
  | .error f => (.error f, s)
  | .ok r =>
    let (answer, usage) := s.usage.recordAnalysis now service
    (answer, { history := s.history.add r, usage })

def records (limit : Value) : List History.Record := (s.history.newest limit).toOption.getD []

def usageView : Value :=
  let view : Outcome Value := do
    return .object [
      ("total_analyses", ← s.usage.ask "get_total_analyses"),
      ("analyses_by_service", ← s.usage.ask "get_analyses_by_service"),
      ("analyses_by_date", ← s.usage.ask "get_analyses_by_date"), ("error_rate", ← s.usage.ask "get_error_rate"),
      ("last_analysis", ← s.usage.ask "get_last_analysis_time")]
  view.toOption.getD (.object [])

def summary : Value :=
  let records := s.records .null
  let usage := s.usageView
  let view : Outcome Value := do
    return .object [
      ("total_files_analyzed", ← usage.member "total_analyses"),
      ("average_score", ← History.average records "score"),
      ("total_issues_found", ← History.total records "issues_count"),
      ("average_complexity", ← History.average records "complexity"),
      ("error_rate", ← usage.member "error_rate"), ("last_analysis", ← usage.member "last_analysis")]
  view.toOption.getD (.object [])

def clear (s : Statistics) : Bool × Statistics :=
  match s.history.tell "clear" with
  | .ok history => (true, { s with history })
  | .error _ => (false, s)

def dump : Value := .object [
  ("history", .list ((s.records .null).map History.Record.toValue)), ("usage_stats", s.usageView),
  ("summary", s.summary), ("export_time", now.text)]

end Statistics

end CodeAudit

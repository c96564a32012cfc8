import CodeAudit.Config.Variables
import CodeAudit.Journal

/-! Requests given as documents, and their answers. A request may be a list of steps on one state; a
step that fails leaves its fault among the answers and does not stop the later ones. -/

namespace CodeAudit

inductive Reply where
  | value (v : Value)
  | fault (f : Fault)
  | list (items : List Reply)
  | object (entries : List (String × Reply))

namespace Reply

def ofOutcome : Outcome Value → Reply
  | .ok v => .value v
  | .error f => .fault f

def steps (answers : List Reply) : Reply := .object [("steps", .list answers)]

end Reply

namespace Command

abbrev Query := Value → Outcome Value

abbrev Play := Value → Outcome Reply

variable (input : Value) (key : String)

def field? : Option Value :=
  match input with
  | .object entries => entries.lookup key
  | _ => none

def field (default : Value) : Value := (field? input key).getD default

def hasField : Bool := (field? input key).isSome

def isOn : Bool := (field input key (.bool false)).truthy

def objectField : Entries :=
  match field input key (.object []) with
  | .object entries => entries
  | _ => []

def textField (key default : String) : String := (field input key default).display

def environmentOf : Config.Environment := (objectField input "env").map fun (k, v) => (k, v.display)

def badCall : Fault := .wrongType "the arguments do not fit"

def choose {α : Type} (table : List (String × α)) (unknown : String → Fault) (name : String) : Outcome α :=
  (table.lookup name).elim (.error (unknown name)) .ok

def toldOr (key : String) (v : Value) : Outcome Value :=
  match field? input key with
  | some words => .error (.runtime words.display)
  | none => .ok v

/-- Arguments by name, for a call that has other ones under the taken names. -/
def freeArguments (taken : List String) : Outcome Entries := do
  let .object args := field input key (.object []) | throw badCall
  if taken.any fun name => (args.lookup name).isSome then throw badCall
  return args

/-- Arguments given by place and by name: each name takes the next one by place, the others what is
given for them or their defaults. -/
def mixed (args : List Value) (named : Entries) (names : List (String × Option Value)) :
    Outcome (String → Value) := do
  let placed := (names.map (·.1)).zip args
  let given := placed ++ named
  if names.length < args.length ||
      named.any (fun (name, _) => (placed.lookup name).isSome || (names.lookup name).isNone) ||
      names.any (fun (name, default) => (given.lookup name).isNone && default.isNone) then throw badCall
  let defaults := names.filterMap fun (name, default) => default.map fun v => (name, v)
  return fun name => ((given.lookup name).or (defaults.lookup name)).getD .null

def arguments (args : Value) (required : List String) (optional : Entries) : Outcome (String → Value) :=
  match args with
  | .object entries => mixed [] entries (required.map (·, none) ++ optional.map fun (name, v) => (name, some v))
  | _ => .error badCall

def placed (args : List Value) (names : List (String × Option Value)) : Outcome (String → Value) :=
  mixed args [] names

def ascending (values : List Value) : Outcome (List Value) := do
  for (a, b) in values.zip (values.drop 1) do
    let _ ← a.less b
  return values.mergeSort fun a b => !((b.less a).toOption.getD false)

abbrev Step (σ : Type) := σ → String → Value → Outcome Value × σ

variable {σ : Type}

def runReplies (input : Value) (start : σ) (step : σ → String → Value → Reply × σ) :
    Outcome (List Reply × σ) := do
  let ops ← (← input.member "ops").parts
  return ops.foldl (fun (answers, state) op =>
    match op.member "do" with
    | .ok name =>
      let (answer, next) := step state name.display op
      (answers ++ [answer], next)
    | .error f => (answers ++ [.fault f], state)) ([], start)

def runSteps (input : Value) (start : σ) (step : Step σ) : Outcome (List Reply × σ) :=
  runReplies input start fun s name op => (step s name op).map .ofOutcome id

def play (input : Value) (start : σ) (step : Step σ) : Outcome Reply := do
  return .steps (← runSteps input start step).1

variable (s : σ)

def look (r : Outcome Value) : Outcome Value × σ := (r, s)

def attempt {α β σ : Type} (s : σ) (r : Outcome α) (act : α → Outcome β × σ) : Outcome β × σ :=
  match r with
  | .ok a => act a
  | .error f => (.error f, s)

def changeAnd (r : Outcome σ) (tell : σ → Value) : Outcome Value × σ :=
  attempt s r fun next => (.ok (tell next), next)

def change (r : Outcome σ) : Outcome Value × σ := changeAnd s r fun _ => .null

def told {α σ : Type} (tell : α → Value) (r : α × σ) : Outcome Value × σ := (.ok (tell r.1), r.2)

def done {α σ : Type} (r : Outcome α × σ) : Outcome Value × σ := (r.1.map fun _ => .null, r.2)

def unknownStep (name : String) : Outcome Value × σ := (.error (.missingKey name), s)

end Command

end CodeAudit

namespace CodeAudit.Command

open Journal

variable (clock : Float)

def momentOf : Time.DateTime := .ofMicros (Time.microsOfSeconds clock) none

def moveClock (op : Value) : Outcome Float := do
  match (← op.member "s").number? with
  | some n => (Num.float clock).add n >>= Num.toFloat
  | none => .error badCall

structure Clocked (σ : Type) where
  clock : Float
  state : σ

abbrev TimedStep (σ : Type) := Float → σ → String → Value → Reply × σ

def runTimed {σ : Type} (input : Value) (start : σ) (step : TimedStep σ)
    (moved : Reply → Reply) : Outcome (List Reply × Clocked σ) :=
  runReplies input ⟨clock, start⟩ fun c name op =>
    if name = "advance" then
      match moveClock c.clock op with
      | .ok clock => (moved (.value .null), { c with clock })
      | .error f => (moved (.fault f), c)
    else (step c.clock c.state name op).map id fun state => { c with state }

def playTimed {σ : Type} (input : Value) (start : σ) (step : Float → Step σ) : Outcome Reply := do
  return .steps (← runTimed clock input start (fun clock s name op => (step clock s name op).map .ofOutcome id) id).1

def sortedDetails (details : Value) : Value :=
  match details with
  | .object entries => .object (entries.map fun (k, v) =>
      match v with
      | .list items =>
        if Text.occurs "permissions" k then
          (k, .list (items.mergeSort fun a b => decide (a.display ≤ b.display)))
        else (k, v)
      | v => (k, v))
  | v => v

def eventReply (e : Event) : Option Value :=
  match e.level with
  | .ok level =>
    if level < leastLevel then none
    else
      let entries := e.toEntries.map fun (k, v) => if k = "details" then (k, sortedDetails v) else (k, v)
      some (.object (entries ++ [("level", .text (levelName level))]))
  | .error _ => none

def withEvents (answer : Reply) (events : List Event) : Reply :=
  .object [("value", answer), ("events", .value (.list (events.filterMap eventReply)))]

abbrev EventStep (σ : Type) := Float → σ → String → Value → Outcome Value × List Event × σ

def playEvents {σ : Type} (input : Value) (start : σ) (step : EventStep σ) : Outcome Reply := do
  let (answers, _) ← runTimed clock input start (fun clock s name op =>
    let (answer, events, s) := step clock s name op
    (withEvents (.ofOutcome answer) events, s)) (withEvents · [])
  return .steps answers

end CodeAudit.Command

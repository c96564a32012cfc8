import CodeAudit.Json

/-! Programs of the system that an analyzer calls. What a call answers is given from outside. -/

namespace CodeAudit.Analyzer

structure Reply where
  output : Value := ""
  complaint : Value := ""
  status : Value := .int 0

inductive Call where
  | done (reply : Reply)
  | missing
  | failed

abbrev Toolbox := String → Call

def Reply.document? (reply : Reply) : Outcome (Option Value) :=
  match reply.output with
  | .text s => Json.document? s
  | v => .error (.wrongType ("the JSON object must be str, bytes or bytearray, not " ++ v.kind))

def missingProgram (program : String) : Fault :=
  .missingFile ("[Errno 2] No such file or directory: '" ++ program ++ "'")

def Toolbox.run (tools : Toolbox) (program command : String) : Outcome Reply :=
  match tools command with
  | .done reply => .ok reply
  | .missing => .error (missingProgram program)
  | .failed => .error (.runtime ("Command '" ++ command ++ "' returned non-zero exit status 1."))

def Toolbox.demand (tools : Toolbox) (complaint : String) : List String → Outcome Unit
  | [] => .ok ()
  | program :: rest =>
    match tools (program ++ " --version") with
    | .done _ => tools.demand complaint rest
    | .missing => .error (missingProgram program)
    | .failed => .error (.runtime complaint)

/-! What an analyzer looks for. -/

inductive Category where
  | script | unused | quality | typeScript | sql | complexity | security
deriving DecidableEq

namespace Category

def all : List Category := [.script, .unused, .quality, .typeScript, .sql, .complexity, .security]

def number : Category → Nat
  | .script => 1
  | .unused => 2
  | .quality => 3
  | .typeScript => 4
  | .sql => 5
  | .complexity => 6
  | .security => 7

def name : Category → String
  | .script => "SCRIPT"
  | .unused => "UNUSED"
  | .quality => "QUALITY"
  | .typeScript => "TYPESCRIPT"
  | .sql => "SQL"
  | .complexity => "COMPLEXITY"
  | .security => "SECURITY"

def ofName? (name : String) : Option Category := all.find? fun c => c.name = name

end Category

/-! Problems that an analyzer reports, each with the place and the text that gave rise to it. -/

structure Issue where
  kind : String
  description : String
  severity : String
  line : Int
  code : String
  weaknesses : List String

def Issue.toValue (i : Issue) : Value :=
  .object [
    ("type", i.kind), ("description", i.description), ("severity", i.severity),
    ("line_number", .int i.line), ("code", i.code), ("cwe", .texts i.weaknesses)]

/-! The life of an analyzer. The `Bench` is what it keeps between calls, together with the temporary
files that exist. -/

structure Job where
  code : Value
  filename : Value

structure Draft where
  content : String
  suffix : String
deriving DecidableEq

structure Attempt (α : Type) where
  drafts : List Draft
  result : Outcome α

structure Engine where
  category : Outcome Category
  setup : Job → Attempt Unit
  analysis : Job → Attempt Value

structure Bench where
  job : Option Job := none
  ready : Bool := false
  recorded : List Nat := []
  disk : List (Nat × Draft) := []
  made : Nat := 0

def noContext : Fault := .runtime "Contexte non initialisé"

def notReady : Fault := .runtime "L'analyseur n'est pas initialisé"

def alreadyReady : Fault := .runtime "L'analyseur est déjà initialisé"

namespace Bench

variable (b : Bench)

def write (d : Draft) : Bench :=
  { b with disk := b.disk ++ [(b.made, d)], recorded := b.recorded ++ [b.made], made := b.made + 1 }

def writeAll (ds : List Draft) : Bench := ds.foldl write b

/-- Gives the analyzer a job and sets it up. It keeps the job even if the set-up fails; a second job
is refused. -/
def accept (e : Engine) (job : Job) (b : Bench) : Outcome Unit × Bench :=
  if b.ready then (.error alreadyReady, b)
  else
    let attempt := e.setup job
    (attempt.result, { b with job := some job, ready := true }.writeAll attempt.drafts)

def failure (c : Category) (f : Fault) : Value :=
  .object [("error", .bool true), ("message", f.text), ("analyzer", .nat c.number)]

def analyze (e : Engine) (b : Bench) : Outcome Value × Bench :=
  if !b.ready then (.error notReady, b)
  else match b.job with
    | none => (e.category.map fun c => failure c noContext, b)
    | some job =>
      let attempt := e.analysis job
      let b := b.writeAll attempt.drafts
      match attempt.result with
      | .ok v => (.ok v, b)
      | .error f => (e.category.map fun c => failure c f, b)

def createTemp (d : Draft) (b : Bench) : Outcome Draft × Bench :=
  match b.job with
  | none => (.error noContext, b)
  | some _ => (.ok d, b.write d)

def cleanup : Bench :=
  { b with
    job := none, ready := false, recorded := []
    disk := b.disk.filter fun f => !b.recorded.contains f.1 }

def context : Outcome Job :=
  match b.job with
  | none => .error noContext
  | some job => .ok job

end Bench

def draftText (code : Value) : Outcome String :=
  match code with
  | .text s => .ok s
  | .null => .error (.wrongType "write() argument must be str, not None")
  | v => .error (.wrongType ("write() argument must be str, not " ++ v.kind))

/-- Work on a job whose code is first written to a file; any fault is told with a leading remark. -/
def withSourceFile (suffix remark : String) (more : List Draft) (work : Outcome Value) (job : Job) : Attempt Value :=
  let told := fun (f : Fault) => Fault.runtime (remark ++ f.text)
  match draftText job.code with
  | .error f => ⟨[], .error (told f)⟩
  | .ok code => ⟨⟨code, suffix⟩ :: more, work.mapError told⟩

end CodeAudit.Analyzer

import CodeAudit.Number.Written

/-! How far tasks have come. A direct tracker applies an update at once; a queued one keeps it until
its worker has its turn. -/

namespace CodeAudit.Progress

structure Task where
  total : Value := .int 0
  current : Value := .int 0
  status : Value := ""
  details : Value := ""
  completed : Bool := false
  error : Value := .null
  metadata : Value := .object []
  parts : List Nat := []

inductive Update where
  | progress (percentage : Value)
  | status (words : Value)
  | details (words : Value)
  | complete
  | error (words : Value)

namespace Task

variable (t : Task)

def stepAt (percentage : Value) : Outcome Int := do
  let scaled ← Value.arith "*" Num.mul percentage t.total
  let share ← Value.arith "/" (fun a b => (Num.div a b).map .float) scaled (.int 100)
  share.toInt

def apply : Update → Outcome Task
  | .progress percentage => do return { t with current := .int (← t.stepAt percentage) }
  | .status words => .ok { t with status := words }
  | .details words => .ok { t with details := words }
  | .complete => .ok { t with current := t.total, completed := true }
  | .error words => .ok { t with error := words }

def applyOrDrop (u : Update) : Task :=
  match t.apply u with
  | .ok t => t
  | .error _ => t

def percentage : Outcome Value := do
  if t.total.equals (.int 0) then return .float 0.0
  let share ← Value.arith "/" (fun a b => (Num.div a b).map .float) t.current t.total
  Value.arith "*" Num.mul share (.int 100)

def isComplete : Outcome Bool := t.current.atLeast t.total

end Task

inductive Worker where
  | absent | fresh | waiting | ended
deriving DecidableEq

structure Tracker where
  task : Task := {}
  queue : List Update := []
  worker : Worker := .absent
  running : Bool := true

namespace Tracker

def work (h : Tracker) : Tracker :=
  match h.queue with
  | [] => h
  | u :: rest => { h with task := h.task.applyOrDrop u, queue := rest }

def loop (h : Tracker) : Tracker :=
  if h.running then
    { h with task := h.queue.foldl Task.applyOrDrop h.task, queue := [], worker := .waiting }
  else { h with worker := .ended }

/-- The worker's turn. One that waits takes the update it waited for before it looks whether the
tracker runs. -/
def turn (h : Tracker) : Tracker :=
  match h.worker with
  | .fresh => h.loop
  | .waiting => if h.queue.isEmpty then h else h.work.loop
  | .absent | .ended => h

def setup (h : Tracker) : Tracker := { h with worker := .fresh }

/-- Stops the tracker and waits for the end of its worker. This never returns if the worker waits
for an update. -/
def cleanup? (h : Tracker) : Option Tracker :=
  let h := { h with running := false }.turn
  if h.worker = .waiting then none else some h

def post (u : Update) (h : Tracker) : Tracker := { h with queue := h.queue ++ [u] }

end Tracker

structure Board where
  queued : Bool := false
  trackers : List Tracker := [{}]

namespace Board

variable (b : Board) (place : Int)

def get : Outcome (Nat × Tracker) := do
  let h ← Value.item b.trackers place
  return ((if place < 0 then place + b.trackers.length else place).toNat, h)

def set (b : Board) (place : Nat) (h : Tracker) : Board := { b with trackers := b.trackers.set place h }

def tell (u : Update) : Outcome Board := do
  let (i, h) ← b.get place
  if b.queued then return b.set i (h.post u).turn
  else return b.set i { h with task := ← h.task.apply u }

def start : Outcome Board := do
  let (i, h) ← b.get place
  return b.set i h.setup.turn

def stop : Outcome Board := do
  let (i, h) ← b.get place
  return b.set i (h.cleanup?.getD { h with running := false, worker := .ended })

def divide (total : Value) : Outcome Board := do
  let (i, h) ← b.get place
  let task := { h.task with parts := h.task.parts ++ [b.trackers.length] }
  let b := b.set i { h with task := task }
  return { b with trackers := b.trackers ++ [{ task := { total := total } }] }

def remark (metadata : Value) : Outcome Unit × Board :=
  match b.get place with
  | .error f => (.error f, b)
  | .ok (i, h) =>
    let (merged, ending) := h.task.metadata.mergeBefore metadata
    (ending, b.set i { h with task := { h.task with metadata := merged } })

/-- The task at a place with its sub-tasks as a document. Sub-tasks stand later on the board, so the
number of trackers bounds the depth. -/
def describe (b : Board) : Nat → Nat → Outcome Entries
  | 0, _ => .ok []
  | depth + 1, place => do
    let task := (b.trackers.getD place {}).task
    let percentage ← task.percentage
    let parts ← task.parts.mapM fun p => b.describe depth p
    return [
      ("total_steps", task.total), ("current_step", task.current), ("progress_percentage", percentage),
      ("status", task.status), ("details", task.details), ("completed", .bool task.completed),
      ("error", task.error), ("metadata", task.metadata), ("sub_tasks", .list (parts.map .object))]

def toValue : Outcome Value := do
  let entries ← b.describe b.trackers.length 0
  let task := (b.trackers.getD 0 {}).task
  return .object (entries ++ [
    ("is_complete", .bool (← task.isComplete)), ("has_error", .bool (!task.error.equals .null))])

end Board

end CodeAudit.Progress

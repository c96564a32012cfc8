import CodeAudit.Time.DateTime

/-! A queue of analyses and the workers that empty it. A worker holds one of a fixed number of
permits while it waits and works. An event is what one party does between two points at which it may
be suspended. -/

namespace CodeAudit

namespace Queue

def idAt (micros : Int) : String := "analysis_" ++ floatText (Time.secondsOfMicros micros)

inductive Status where
  | pending
  | completed (result : Value)
  | failed (words : Option String)

structure Analysis where
  serial : Nat
  id : String
  data : Value
  time : Time.DateTime
  status : Status := .pending

def Analysis.incoming (serial : Nat) (micros : Int) (data : Value) : Analysis :=
  { serial, id := idAt micros, data, time := .ofMicros micros none }

inductive Worker where
  | idle
  | waiting
  | handling (a : Analysis)
  | gone

def Worker.holdsPermit : Worker → Bool
  | .idle | .gone => false
  | .waiting | .handling _ => true

def Worker.analysis? : Worker → Option Analysis
  | .handling a => some a
  | _ => none

end Queue

/-- The analyses that wait, the workers, the free permits, and which analyses were handed to the
handler, are finished, were left without an end, or had their end reported. -/
structure Queue where
  pending : List Queue.Analysis := []
  arrived : Nat := 0
  permits : Nat := 5
  workers : List Queue.Worker := []
  running : Bool := false
  handed : List Queue.Analysis := []
  finished : List Queue.Analysis := []
  dropped : List Queue.Analysis := []
  reports : Nat := 0

namespace Queue

/-- How a handler ends: with a result, with an error, or called off by itself. The text of an error
is made for the log and again for the analysis, and making it may fail. Then the worker has an error
to tell, which may fail too. -/
inductive Ending where
  | returns (result : Value)
  | raises (logged kept : Option String) (told : Bool)
  | calledOff

def Ending.plain (words : String) : Ending := .raises (some words) (some words) true

def Ending.status : Ending → Status
  | .returns result => .completed result
  | .raises (some _) kept _ => .failed kept
  | .raises none _ _ | .calledOff => .pending

def Ending.endsWorker : Ending → Bool
  | .returns _ | .raises (some _) (some _) _ => false
  | .raises _ _ told => !told
  | .calledOff => true

/-- One thing that happens. A worker finishes when its handler ends, and leaves when it is called
off where it is suspended. -/
inductive Event where
  | enqueue (micros : Int) (data : Value)
  | acquire (worker : Nat)
  | take (worker : Nat)
  | finish (worker : Nat) (ending : Ending)
  | stop
  | leave (worker : Nat)

variable (q : Queue)

def enqueue (micros : Int) (data : Value) : Queue :=
  { q with pending := q.pending ++ [.incoming q.arrived micros data], arrived := q.arrived + 1 }

def start (count : Nat) : Queue :=
  { q with workers := q.workers ++ List.replicate count .idle, running := q.running || 0 < count }

def become (place : Nat) (w : Worker) : Queue := { q with workers := q.workers.set place w }

def Analysis.settle (ending : Ending) (a : Analysis) : Analysis := { a with status := ending.status }

def Worker.after (running : Bool) (ending : Ending) : Worker :=
  if running && !ending.endsWorker then .idle else .gone

def step : Event → Option Queue
  | .enqueue micros data => some (q.enqueue micros data)
  | .acquire place =>
    match q.running, q.workers[place]?, q.permits with
    | true, some .idle, n + 1 => some { q.become place .waiting with permits := n }
    | _, _, _ => none
  | .take place =>
    match q.running, q.workers[place]?, q.pending with
    | true, some .waiting, a :: rest =>
      some { q.become place (.handling a) with pending := rest, handed := q.handed ++ [a] }
    | _, _, _ => none
  | .finish place ending =>
    match q.workers[place]? with
    | some (.handling a) =>
      some { q.become place (.after q.running ending) with
        permits := q.permits + 1, reports := q.reports + 1
        finished := q.finished ++ [a.settle ending] }
    | _ => none
  | .stop => some { q with running := false }
  | .leave place =>
    -- The end of an analysis is reported although it keeps its status.
    match q.running, q.workers[place]? with
    | false, some w =>
      some { q.become place .gone with
        permits := q.permits + w.holdsPermit.toNat, reports := q.reports + w.analysis?.toList.length
        dropped := q.dropped ++ w.analysis?.toList }
    | _, _ => none

def run (events : List Event) : Queue := events.foldl (fun q e => (q.step e).getD q) q

def stop (q : Queue) : Queue := { q.run (.stop :: (List.range q.workers.length).map .leave) with workers := [] }

def serve (handler : Value → Ending) (place : Nat) (q : Queue) : Queue :=
  let q := q.run [.acquire place, .take place]
  match q.workers[place]? with
  | some (.handling a) => q.run [.finish place (handler a.data)]
  | _ => q

def drain (handler : Value → Ending) (q : Queue) : Queue :=
  (List.range (q.pending.length + 1)).foldl (fun q _ => q.serve handler 0) q

end Queue

end CodeAudit

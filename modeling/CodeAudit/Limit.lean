import CodeAudit.Data.Table
import CodeAudit.Time.DateTime

/-! Fixed windows: for each client and kind of request a count, which starts again with the first
request later than one window after its start. -/

namespace CodeAudit.Limit

open Time

/-- So many requests in a window of so many seconds. What is not a number lets nothing pass. -/
structure Quota where
  requests : Value
  window : Value

namespace Quota

variable {T : Type} [Seconds T] (q : Quota)

def isOver? (elapsed : T) : Option Bool := q.window.number?.map fun w => decide (Seconds.ofNum w < elapsed)

def isSpent? (count : Nat) : Option Bool := q.requests.number?.map fun n => n.le (.int count)

def left (count : Nat) : Option Value := do
  let n ← q.requests.number?
  let rest ← (n.sub (.int count)).toOption
  return .ofNum (Num.max (.int 0) rest)

end Quota

structure Window (T : Type) where
  count : Nat
  start : T

structure WindowLimiter (T κ : Type) where
  quotas : Keyed κ Quota := []
  windows : Keyed κ (Keyed κ (Window T)) := []

namespace WindowLimiter

variable {T κ : Type} [Seconds T] [BEq κ]

def standardQuotas (key : String → κ) : Keyed κ Quota := [
  (key "default", ⟨.int 100, .int 3600⟩), (key "analysis", ⟨.int 10, .int 60⟩),
  (key "ai", ⟨.int 50, .int 3600⟩)]

def standard : WindowLimiter T String := { quotas := standardQuotas id }

variable (l : WindowLimiter T κ) (client kind : κ)

def window? : Option (Window T) := (l.windows.get? client).bind (·.get? kind)

def setWindow (w : Window T) : WindowLimiter T κ :=
  { l with windows := l.windows.put client (((l.windows.get? client).getD []).put kind w) }

def check (now : T) (client kind : κ) : Bool × WindowLimiter T κ :=
  match l.quotas.get? kind with
  | none => (false, l)
  | some quota =>
    let w := (l.window? client kind).getD ⟨0, now⟩
    match quota.isOver? (now - w.start) with
    | none => (false, l.setWindow client kind w)
    | some isOver =>
      let w := if isOver then ⟨0, now⟩ else w
      if quota.isSpent? w.count = some false then
        (true, l.setWindow client kind { w with count := w.count + 1 })
      else (false, l.setWindow client kind w)

def remaining : Option Value := do
  let quota ← l.quotas.get? kind
  match l.window? client kind with
  | some w => quota.left w.count
  | none => some quota.requests

def resetTime : Option T := do
  let w ← l.window? client kind
  let quota ← l.quotas.get? kind
  let length ← quota.window.number?
  return w.start + Seconds.ofNum length

end WindowLimiter

/-! Limits by client: at most so many requests in a window that ends now. Times are in
microseconds. -/

def second : Int := 1000000

def blockSeconds : Int := 300

structure ClientLimiter (κ : Type) where
  window : Value := .int 60
  quota : Value := .int 60
  requests : Keyed κ (List Int) := []
  blocks : Keyed κ Int := []

namespace ClientLimiter

variable {κ : Type} [BEq κ] (l : ClientLimiter κ) (now : Int) (client : κ)

def blockEnd? : Option Int := (l.blocks.get? client).filter fun t => now < t

def dropEnded : ClientLimiter κ :=
  match l.blocks.get? client with
  | some t => if t ≤ now then { l with blocks := l.blocks.erase client } else l
  | none => l

def isBlocked : Bool × ClientLimiter κ := ((l.blockEnd? now client).isSome, l.dropEnded now client)

def block (seconds : Value) : Outcome (ClientLimiter κ) := do
  return { l with blocks := l.blocks.put client (← later now (← spanOf seconds)) }

def requestsOf : List Int := (l.requests.get? client).getD []

def recent : Outcome (List Int) := do
  let start ← later now (-(← spanOf l.window))
  return (l.requestsOf client).filter fun t => start ≤ t

def setRequests (times : List Int) : ClientLimiter κ := { l with requests := l.requests.put client times }

def secondsUntil (now t : Int) : Int := (t - now).tdiv second

/-- Asks for one more request of a client that is not blocked. A refusal says after how many seconds
to ask again. -/
def serve : Outcome (Option Int) × ClientLimiter κ :=
  match l.recent now client with
  | .error f => (.error f, l.setRequests client (l.requestsOf client))
  | .ok times =>
    let l := l.setRequests client times
    match Value.atLeast (.nat times.length) l.quota with
    | .error f => (.error f, l)
    | .ok false => (.ok none, l.setRequests client (times ++ [now]))
    | .ok true =>
      match l.block now client (.int blockSeconds) with
      | .ok l => (.ok (some blockSeconds), l)
      | .error f => (.error f, l)

def add : Outcome (Option Int) × ClientLimiter κ :=
  match l.blockEnd? now client with
  | some t => (.ok (some (secondsUntil now t)), l)
  | none => (l.dropEnded now client).serve now client

def resetAfter (times : List Int) : Outcome Value :=
  match times.min? with
  | some oldest => do return .int (secondsUntil now (← later oldest (← spanOf l.window)))
  | none => .ok l.window

def remaining : Outcome (Value × Value) × ClientLimiter κ :=
  match l.blockEnd? now client with
  | some t => (.ok (.int 0, .int (secondsUntil now t)), l)
  | none =>
    let l := l.dropEnded now client
    if !l.requests.has client then (.ok (l.quota, l.window), l)
    else
      match l.recent now client with
      | .error f => (.error f, l)
      | .ok times =>
        let l := l.setRequests client times
        (do
          let reset ← l.resetAfter now times
          return (← Value.arith "-" Num.sub l.quota (.nat times.length), reset), l)

end ClientLimiter

/-! Limits by address: every rule counts the requests of an address in a window that ends now. Going
over a rule with a blocking time refuses everything until that time has passed. -/

structure Rule where
  requests : Value
  window : Value
  blockTime : Value := .null

def standardRules : Table Rule := [
  ("global", ⟨.int 1000, .int 3600, .int 3600⟩),
  ("auth", ⟨.int 5, .int 300, .int 1800⟩),
  ("api", ⟨.int 100, .int 60, .int 300⟩)]

/-- The answer of a check. A refusal says after how many seconds to ask again; `newBlock` is the
block of this very check. -/
structure Verdict where
  allowed : Bool
  retryAfter : Value := .null
  newBlock : Option Value := none

structure AddressLimiter (T κ : Type) where
  rules : Table Rule := standardRules
  requests : Keyed κ (List T) := []
  blocks : Keyed κ T := []

def lengthOf {T : Type} [Seconds T] (sign : String) (v : Value) : Outcome T :=
  match v.number? with
  | some n =>
    if n.fitsFloat then .ok (Seconds.ofNum n) else .error (.overflow "int too large to convert to float")
  | none => .error (Value.unsupported sign (.float 0.0) v)

namespace AddressLimiter

variable {T κ : Type} [Seconds T] [BEq κ] (l : AddressLimiter T κ) (now : T) (address : κ)

def blockEnd? : Option T := (l.blocks.get? address).filter fun t => !decide (t ≤ now)

def dropEnded : AddressLimiter T κ :=
  match l.blocks.get? address with
  | some t => if t ≤ now then { l with blocks := l.blocks.erase address } else l
  | none => l

def isBlocked : Bool × AddressLimiter T κ := ((l.blockEnd? now address).isSome, l.dropEnded now address)

def block (duration : Value) : Outcome (AddressLimiter T κ) := do
  return { l with blocks := l.blocks.put address (now + (← lengthOf "+" duration)) }

def requestsOf : List T := (l.requests.get? address).getD []

def longestWindow (rules : Table Rule) : Outcome Value :=
  match rules with
  | [] => .error (.badValue "max() arg is an empty sequence")
  | r :: rest => rest.foldlM (fun w r => do
      return if ← Value.greater r.2.window w then r.2.window else w) r.2.window

def within (window : Value) (times : List T) : Outcome (List T) :=
  match window.number?, times with
  | some w, times => .ok (times.filter fun t => now - t ≤ Seconds.ofNum w)
  | none, [] => .ok []
  | none, _ :: _ => .error (Value.unordered "<=" (.float 0.0) window)

def setRequests (times : List T) : AddressLimiter T κ :=
  if times.isEmpty then { l with requests := l.requests.erase address }
  else { l with requests := l.requests.put address times }

def record : Outcome Unit × AddressLimiter T κ :=
  let times := l.requestsOf address ++ [now]
  match longestWindow l.rules >>= fun w => within now w times with
  | .ok kept => (.ok (), l.setRequests address kept)
  | .error f => (.error f, l.setRequests address times)

variable (r : Rule)

def recent : Outcome (List T) := within now r.window (l.requestsOf address)

def nextFree : Outcome Int := do
  let window : T ← lengthOf "-" r.window
  match Seconds.min? ((l.requestsOf address).filter fun t => now - window < t) with
  | some t => Seconds.wholeSeconds (t + window - now)
  | none => throw (.badValue "min() arg is an empty sequence")

def judge : Outcome (Verdict × AddressLimiter T κ) := do
  let recent ← l.recent now address r
  if !(← Value.atLeast (.nat recent.length) r.requests) then return ({ allowed := true }, l)
  else if r.blockTime.truthy then
    return ({ allowed := false, retryAfter := r.blockTime, newBlock := some r.blockTime },
      ← l.block now address r.blockTime)
  else return ({ allowed := false, retryAfter := .int (← l.nextFree now address r) }, l)

def rule (name : String) : Outcome Rule :=
  match l.rules.get? name with
  | some r => .ok r
  | none => .error (.missingKey name)

/-- Whether a request of an address may pass under a rule. A blocked address is refused before the
rule is looked at. -/
def checkUnder (r : Outcome Rule) : Outcome Verdict × AddressLimiter T κ :=
  match l.blockEnd? now address with
  | some t => ((Seconds.wholeSeconds (t - now)).map fun n => { allowed := false, retryAfter := .int n }, l)
  | none =>
    let l := l.dropEnded now address
    match r with
    | .error f => (.error f, l)
    | .ok r =>
      let l := { l with requests := l.requests.put address (l.requestsOf address) }
      match l.judge now address r with
      | .ok (v, l) => (.ok v, l)
      | .error f => (.error f, l)

def check (name : String) : Outcome Verdict × AddressLimiter T κ := l.checkUnder now address (l.rule name)

end AddressLimiter

def ruleOf (path : String) : String :=
  if Text.startsWith "/auth" path then "auth"
  else if Text.startsWith "/api" path then "api"
  else "global"

def AddressLimiter.handle {T κ : Type} [Seconds T] [BEq κ] (l : AddressLimiter T κ) (now : T)
    (address : κ) (path : String) : Outcome Verdict × AddressLimiter T κ :=
  match l.check now address (ruleOf path) with
  | (.ok v, l) =>
    if v.allowed then
      let (noted, l) := l.record now address
      (noted.map fun _ => v, l)
    else (.ok v, l)
  | (.error f, l) => (.error f, l)

end CodeAudit.Limit

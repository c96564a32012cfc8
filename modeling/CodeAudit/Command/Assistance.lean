import CodeAudit.Assistant
import CodeAudit.Command.Request
import CodeAudit.Server

/-! Requests about limits of requests. -/

namespace CodeAudit.Command

open Journal Limit Time

def repeatCount (op : Value) : Outcome Nat := do
  match (← op.member "n").whole? with
  | some n => return n.toNat
  | none => .error badCall

def repeated {σ α : Type} (act : σ → α × σ) : Nat → σ → List α × σ
  | 0, s => ([], s)
  | n + 1, s =>
    let (a, s) := act s
    let (rest, s) := repeated act n s
    (a :: rest, s)

def repeatedWell {σ α : Type} (act : σ → Outcome α × σ) : Nat → σ → Outcome (List α) × σ
  | 0, s => (.ok [], s)
  | n + 1, s =>
    match act s with
    | (.error f, s) => (.error f, s)
    | (.ok a, s) =>
      let (rest, s) := repeatedWell act n s
      (rest.map (a :: ·), s)

def clientAndKind (op : Value) : Outcome (Value × Value) := do
  let get ← placed (← (← op.member "a").parts) [("key", none), ("limit_type", some "default")]
  return (get "key", get "limit_type")

def keysOf (client kind : Value) : Outcome (Key × Key) := do return (← client.toKey, ← kind.toKey)

variable (clock : Float)

def windowLimits : Play := fun input =>
  playTimed clock input ({ quotas := WindowLimiter.standardQuotas fun s => ⟨s⟩ } :
      WindowLimiter Float Key) fun now l name op =>
    let ask (client kind : Value) (l : WindowLimiter Float Key) : Bool × WindowLimiter Float Key :=
      match keysOf client kind with
      | .ok (c, k) => l.check now c k
      | .error _ => (false, l)
    match name with
    | "check" => attempt l (clientAndKind op) fun (client, kind) => told .bool <| ask client kind l
    | "many" => attempt l (do return (← repeatCount op, ← clientAndKind op)) fun (n, client, kind) =>
      let (answers, l) := repeated (ask client kind) n l
      (.ok (.list (answers.map .bool)), l)
    | "set" => change l (do
        let kind ← op.member "type"
        let quota : Quota := ⟨← op.member "requests", ← op.member "window"⟩
        return { l with quotas := l.quotas.put (← kind.toKey) quota })
    | "remaining" => look l (do
        let (client, kind) ← clientAndKind op
        return ((keysOf client kind).toOption.bind fun (c, k) => l.remaining c k).getD .null)
    | "reset" => look l (do
        let (client, kind) ← clientAndKind op
        let time := (keysOf client kind).toOption.bind fun (c, k) => l.resetTime c k
        let shown := (time.filter fun t => isOnCalendar (Seconds.micros t)).map fun t => (Seconds.toDateTime t).text
        return .ofText? shown)
    | "counters" => look l (.ok (l.windows.document fun kinds => kinds.document fun w => .nat w.count))
    | _ => unknownStep l name

def ruleOfValue (v : Value) : Outcome Rule := do
  let get ← arguments v ["requests", "window"] [("block_time", .null)]
  return { requests := get "requests", window := get "window", blockTime := get "block_time" }

variable (now : Float)

def blockEvent (address duration : Value) : Event :=
  .note (momentOf now) "ip_blocked"
    ("IP " ++ address.display ++ " bloquée pour " ++ duration.display ++ " secondes") "WARNING"
    [("ip", address), ("duration", duration)]

abbrev AddressDesk := AddressLimiter Float Key

variable (l : AddressDesk)

def ruleNamed (name : Value) : Outcome Rule := do
  match name with
  | .text s => l.rule s
  | v => throw (← v.toKey).missing

def addressStep (name : String) (op address : Value) (key : Outcome Key) :
    Outcome Value × List Event × AddressDesk :=
  let quiet (r : Outcome Value × AddressDesk) := (r.1, [], r.2)
  match name, key with
  | "block", _ => attempt ([], l) (do l.block now (← key) (← op.member "duration")) fun l =>
    (.ok .null, [blockEvent now address (field op "duration" .null)], l)
  | _, .error f => (.error f, [], l)
  | "record", .ok key => quiet (done (l.record now key))
  | "many", .ok key => attempt ([], l) (repeatCount op) fun n =>
    quiet (done (repeatedWell (fun l => l.record now key) n l))
  | "check", .ok key =>
    let (answer, l) := l.checkUnder now key (ruleNamed l (field op "rule_type" "global"))
    attempt ([], l) answer fun v =>
      (.ok (.list [.bool v.allowed, v.retryAfter]), (v.newBlock.map (blockEvent now address)).toList, l)
  | "blocked", .ok key =>
    let (b, l) := l.isBlocked now key
    quiet (.ok (.bool b), l)
  | _, _ => quiet (unknownStep l name)

def addressLimits : Play := fun input => do
  let rules ← (objectField input "rules").mapM fun (name, r) => do return (name, ← ruleOfValue r)
  let start : AddressDesk := { rules := rules.foldl (fun t (name, r) => t.put name r) standardRules }
  playEvents clock input start fun now l name op =>
    if name = "count" then (.ok (l.requests.document fun times => .nat times.length), [], l)
    else attempt ([], l) (op.member "ip") fun address => addressStep now l name op address address.toKey

def passGate (path : String) (address : Key) : Outcome Verdict × List Event × AddressDesk :=
  match l.handle now address path with
  | (.error f, l) => (.error f, [], l)
  | (.ok v, l) =>
    let blocked := (v.newBlock.map (blockEvent now address.value)).toList
    let refused := if v.allowed then [] else [
      Event.note (momentOf now) "rate_limit_exceeded" ("Rate limit dépassé pour " ++ address.value.display)
        "WARNING"
        [("ip", address.value), ("rule_type", ruleOf path), ("retry_after", v.retryAfter)]]
    (.ok v, blocked ++ refused, l)

def statusOf (v : Verdict) : Nat := if v.allowed then 200 else 429

def gateReply (v : Verdict) : Value :=
  .object [("status", .nat (statusOf v)),
    ("body", if v.allowed then .object [("ok", .bool true)]
      else .object [("error", "Trop de requêtes"), ("retry_after", v.retryAfter)]),
    ("retry_after", if v.allowed then .null else v.retryAfter.display)]

def pathOf (op : Value) : Outcome String := do (← op.member "path").textFor "startswith"

def addressGate : Play := fun input =>
  playEvents clock input ({} : AddressDesk) fun now l name op =>
    attempt ([], l) (field op "ip" "1.2.3.4").toKey fun address =>
      match name with
      | "req" => attempt ([], l) (pathOf op) fun path =>
        let (answer, events, l) := passGate now l path address
        (answer.map gateReply, events, l)
      | "many" => attempt ([], l) (do return (← pathOf op, ← repeatCount op)) fun (path, n) =>
        let (answers, l) := repeated (fun l =>
          let (answer, events, l) := passGate now l path address
          ((answer, events), l)) n l
        let verdicts : Outcome (List Verdict) := answers.mapM fun a => a.1
        (verdicts.map fun vs => .list (vs.map fun v => .nat (statusOf v)), answers.flatMap (·.2), l)
      | _ => (.error (.missingKey name), [], l)

def clientLimiter (input : Value) : ClientLimiter Key where
  window := field input "window_size" (.int 60)
  quota := field input "max_requests" (.int 60)

def addReply (wait : Option Int) : Value := .list [.bool wait.isNone, (wait.map Value.int).getD .null]

def clientLimits : Play := fun input =>
  playTimed clock input (clientLimiter input) fun clock l name op =>
    let now := microsOfSeconds clock
    if name = "count" then (.ok (l.requests.document fun times => .nat times.length), l)
    else attempt l (do (← op.member "key").toKey) fun client =>
      match name with
      | "add" =>
        let (wait, l) := l.add now client
        (wait.map addReply, l)
      | "many" => attempt l (repeatCount op) fun n =>
        let (waits, l) := repeatedWell (fun l => l.add now client) n l
        (waits.map fun ws => .list (ws.map addReply), l)
      | "remaining" =>
        let (answer, l) := l.remaining now client
        (answer.map fun (left, reset) => .list [left, reset], l)
      | "blocked" => told .bool <| l.isBlocked now client
      | "block" => change l (l.block now client (field op "duration" (.int blockSeconds)))
      | _ => unknownStep l name

def serverReply (status : Nat) (body : Value) (headers : Entries) : Value :=
  .object [("status", .nat status), ("body", body), ("headers", .object headers)]

def failedReply : Value := serverReply 500 (.object [("detail", "Erreur interne du serveur")]) []

def passedReply (left reset : Value) : Value :=
  serverReply 200 (.object [("ok", .bool true)]) [("x-ratelimit-limit", "60"),
    ("x-ratelimit-remaining", left.display), ("x-ratelimit-reset", reset.display)]

def isFree (free : Value) (path : String) : Outcome Bool := do
  let excluded ← if free.truthy then free.parts else .ok []
  Server.Shield.isExcluded { excluded } path

def clientStep (now : Int) (free : Value) (boom : Bool) (path : String) (client : Outcome Key)
    (l : ClientLimiter Key) : Value × ClientLimiter Key :=
  match isFree free path, client with
  | .error _, _ => (failedReply, l)
  | .ok true, _ => (if boom then failedReply else serverReply 200 (.object [("ok", .bool true)]) [], l)
  | .ok false, .error _ => (failedReply, l)
  | .ok false, .ok client =>
    match l.add now client with
    | (.error _, l) => (failedReply, l)
    | (.ok (some wait), l) => (serverReply 429 (.object [("detail", .text
        ("Trop de requêtes. Réessayez dans " ++ intText wait ++ " secondes."))]) [], l)
    | (.ok none, l) =>
      if boom then (failedReply, l)
      else
        match l.remaining now client with
        | (.ok (left, reset), l) => (passedReply left reset, l)
        | (.error _, l) => (failedReply, l)

def clientGate : Play := fun input =>
  let free := field input "exclude_paths" .null
  playTimed clock input (clientLimiter input) fun clock l name op =>
    match name, op.member "path" with
    | "req", .error f => (.error f, l)
    | "req", .ok path =>
      let client := (field op "ip" "1.2.3.4").toKey
      told id <| clientStep (microsOfSeconds clock) free (isOn op "boom") path.display client l
    | _, _ => unknownStep l name

/-! Requests about an assistant and about caches. -/

open Assistant Cache Time

def smartStats (c : Smart Float Key) : Entries := [
  ("hits", .nat c.hits), ("misses", .nat c.misses), ("evictions", .nat c.evictions),
  ("access", c.counts.document .nat), ("history", .nat c.history.length)]

def fetchAny (key : Value) (c : Smart Float Key) : Value × Smart Float Key :=
  match key.toKey with
  | .ok key => c.fetch now key
  | .error _ => (.null, c)

variable (clock : Float)

def smartCache : Play := fun input => do
  let maxSize := field input "max_size" (.int 1000)
  playTimed clock input ({ maxSize, timeless := true } : Smart Float Key) fun now c name op =>
    match name with
    | "keys" => look c (do return .list (← ascending (c.store.keys.map Key.value)))
    | _ => attempt c (op.member "key") fun key =>
      match name with
      | "get" =>
        let (v, c) := fetchAny now key c
        (.ok (.object (("value", v) :: smartStats c)), c)
      | "set" =>
        match op.member "value", key.toKey with
        | .error f, _ => (.error f, c)
        | .ok _, .error f => (.error f, (c.makeRoom now).toOption.getD c)
        | .ok v, .ok key =>
          let (ok, seconds, c) := c.keep now key v
          let lifetime := (seconds.map Value.int).getD .null
          (.ok (.object (("ok", .bool ok) :: ("ttl", lifetime) :: smartStats c)), c)
      | "repeat" => changeAnd c (do
          return (repeated (fetchAny now key) (← repeatCount op) c).2) fun c => .object (smartStats c)
      | "ttl" => look c (.ok (.int (match key.toKey with
          | .ok key => c.lifetime key
          | .error _ => Smart.usualLifetime)))
      | _ => unknownStep c name

def lifetimeOf (v : Value) : Option Float := v.number?.map Seconds.ofNum

def remoteStep (now : Float) (c : Remote Float Key) (name : String) (op key : Value) :
    Outcome Value × Remote Float Key :=
  match name, key.toKey with
  | "get", .ok key => told (·.getD .null) <| Remote.fetch c now key
  | "get", .error _ => look c (.ok .null)
  | "set", key =>
    let lifetime := field op "ttl" .null
    attempt c (op.member "value") fun v =>
      match key, lifetime, lifetimeOf lifetime with
      | .ok key, .null, seconds | .ok key, _, seconds@(some _) => told .bool <| Remote.keep c now key some v seconds
      | _, _, _ => look c (.ok (.bool false))
  | "delete", .ok key => told .bool <| Remote.forget c now key
  | "delete", .error _ => look c (.ok (.bool false))
  | "junk", key => change c (do return (Store.put c now (← key) .junk none).2)
  | _, _ => unknownStep c name

variable (op : Value)

def stepLifetime : Option Float :=
  match field op "seconds" .null with
  | .null =>
    let v := field op "expire" .null
    if v.truthy then lifetimeOf v else none
  | v => if v.truthy then (v.toInt.toOption).map fun n => Seconds.ofNum (.int n) else none

def echoService (response : String) : Service Float := fun now prompt args =>
  let later := now + 2.0
  if Text.occurs "fail" prompt then (.error (.runtime "service down"), later)
  else (.ok (response ++ " " ++ Json.write { sorted := true } (.object args)), later)

def remoteServices : List String := ["openai", "gemini"]

def moreArguments : Outcome Entries := freeArguments op "kw" ["self", "prompt"]

def questionOf : Outcome Question := do
  let prompt ← (← op.member "prompt").textFor "split"
  let args ← moreArguments op
  let rest := args.filter fun e => e.1 ≠ "max_tokens" && e.1 ≠ "temperature"
  return { prompt, maxTokens := (args.lookup "max_tokens").getD .null
           temperature := (args.lookup "temperature").getD .null, extra := rest }

def windowReport (o : Optimizer Float) (clock : Float) (op : Value) : Outcome Value := do
  let span ← spanOf (field op "window" (.int 3600))
  match later (microsOfSeconds clock) (-span) with
  | .ok cutoff => return o.report cutoff
  | .error _ => return .object []

def questions : Play := fun input => do
  let service := textField input "service" "fake"
  if remoteServices.contains service then throw badCall
  if service ≠ "fake" then throw (.badValue ("Service inconnu: " ++ service))
  let echo := echoService (textField input "response" "ok")
  play input (⟨clock, { cache := { timeless := true } }⟩ : Clocked (Optimizer Float)) fun c name op =>
    match name with
    | "query" => attempt c (questionOf op) fun q =>
      let (answer, clock, o) := c.state.ask echo c.clock q; (answer, ⟨clock, o⟩)
    | "params" => look c (do
        let prompt ← (← op.member "prompt").textFor "split"
        return .object [("max_tokens", .nat (usualTokens prompt)),
          ("temperature", .float (usualTemperature prompt))])
    | "cost" => look c (do
        return .float (cost (← (← op.member "prompt").textFor "split")
          (← (← op.member "response").textFor "split")))
    | "hash" => look c (do return questionKey (← op.member "prompt") (← moreArguments op))
    | "perf" => look c (windowReport c.state c.clock op)
    | "advance" => change c (do return { c with clock := ← moveClock c.clock op })
    | _ => unknownStep c name

def assistantClient : Query := fun input =>
  let service := lowerText ((environmentOf input).get "AI_SERVICE" "openai")
  if service = "openai" || service = "google" then .error (.missingModule service)
  else .error (.badValue ("Service AI non reconnu : " ++ service))

end CodeAudit.Command

import CodeAudit.Config.Variables
import CodeAudit.Data.Table
import CodeAudit.Text.Template
import CodeAudit.Time.DateTime

/-! Alerts: a rule whose condition holds writes an entry into the history, sends it over its
channels and is then silent for a while. The clock goes on while it is sent. Times are in
microseconds. -/

namespace CodeAudit.Alert

inductive Channel where
  | mail | chat

structure Rule where
  name : String
  metric : String
  bound : Value
  template : String
  severity : String
  cooldown : Int
  channels : List Channel

def rules : Table Rule := [
  ("high_error_rate", {
    name := "Taux d'erreur élevé", metric := "error_rate", bound := .float 0.1
    template := "Taux d'erreur de \x7berror_rate:.1%\x7d"
    severity := "high", cooldown := 300, channels := [.mail, .chat] }),
  ("high_memory_usage", {
    name := "Utilisation mémoire élevée", metric := "memory_usage_mb", bound := .int 1000
    template := "Utilisation mémoire: \x7bmemory_usage_mb\x7dMB"
    severity := "medium", cooldown := 600, channels := [.chat] }),
  ("api_latency", {
    name := "Latence API élevée", metric := "api_latency_ms", bound := .int 1000
    template := "Latence API: \x7bapi_latency_ms\x7dms"
    severity := "high", cooldown := 300, channels := [.mail, .chat] })]

structure Entry where
  rule : String
  time : Int
  name : String
  severity : String
  message : String
  metrics : Value

def Entry.toValue (e : Entry) : Value := .object [
  ("timestamp", (Time.DateTime.ofMicros e.time none).text), ("rule", e.name),
  ("severity", e.severity), ("message", e.message), ("metrics", e.metrics)]

structure Mail where
  host : String
  port : Int
  user : Option String
  subject : String
  sender : String
  receiver : String
  body : String

def Mail.toValue (m : Mail) : Value := .list (
  [.text m.host, .int m.port] ++ (m.user.elim [] fun u => [.text "login", .text u]) ++
    [.text m.subject, .text m.sender, .text m.receiver, .text m.body])

abbrev Post := Channel → Entry → Outcome (Option Mail)

structure Board where
  rules : Table Rule := rules
  last : Table Int := []
  history : List Entry := []
  sent : List Mail := []
  trouble : List Fault := []

variable (r : Rule) (metrics : Value)

def Rule.holds : Outcome Bool := do
  (← metrics.fetch r.metric (.int 0)).greater r.bound

def Rule.message : Value → Outcome String
  | .object metrics => Template.fill r.template metrics
  | _ => .error (.wrongType "keywords must be strings")

def Rule.warning : Outcome (Option String) := do
  if ← r.holds metrics then return some (← r.message metrics) else return none

def Rule.span : Int := r.cooldown * 1000000

/-- The times that are read while a rule is looked at: for the test of its cooldown, for the entry,
and for the stamp, when all channels are through. -/
structure Visit where
  tested : Int
  written : Int
  stamped : Int
  tested_le : tested ≤ written
  written_le : written ≤ stamped

def Visit.still (t : Int) : Visit := ⟨t, t, t, Int.le_refl t, Int.le_refl t⟩

structure Check where
  visit : String → Visit
  metrics : Value
  post : Post

def Check.entry (c : Check) (rule : String × Rule) (message : String) : Entry where
  rule := rule.1
  time := (c.visit rule.1).written
  name := rule.2.name
  severity := rule.2.severity
  message
  metrics := c.metrics

variable (b : Board)

def Board.isSilent (now : Int) (rule : String × Rule) : Bool :=
  match b.last.get? rule.1 with
  | some t => now - t < rule.2.span
  | none => false

def Board.deliver (post : Post) (e : Entry) (c : Channel) : Board :=
  match post c e with
  | .ok mail => { b with sent := b.sent ++ mail.toList }
  | .error f => { b with trouble := b.trouble ++ [f] }

def Board.send (post : Post) (r : Rule) (e : Entry) : Board :=
  r.channels.foldl (·.deliver post e) { b with history := b.history ++ [e] }

def Board.checkRule (c : Check) (rule : String × Rule) : Board :=
  if b.isSilent (c.visit rule.1).tested rule then b
  else
    match rule.2.warning c.metrics with
    | .error f => { b with trouble := b.trouble ++ [f] }
    | .ok none => b
    | .ok (some message) =>
      let b := b.send c.post rule.2 (c.entry rule message)
      { b with last := b.last.put rule.1 (c.visit rule.1).stamped }

def Board.check (c : Check) : Board := b.rules.foldl (·.checkRule c ·) b

variable (env : Config.Environment)

def mailOf (e : Entry) : Option Mail := do
  let port ← intOfText? (env.get "SMTP_PORT" "587")
  let user := env.get "SMTP_USER" ""
  let loggedIn := user ≠ "" ∧ env.get "SMTP_PASS" "" ≠ ""
  return {
    host := env.get "SMTP_HOST" "localhost", port
    user := if loggedIn then some user else none
    subject := "[" ++ e.severity.toUpper ++ "] " ++ e.name
    sender := env.get "ALERT_FROM_EMAIL" "alerts@auditronai.com"
    receiver := env.get "ALERT_TO_EMAIL" "admin@auditronai.com"
    body := e.message }

def postOf (isDown : Bool) : Post
  | .mail, e =>
    match mailOf env e with
    | none => .error (.badValue "invalid literal for int() with base 10")
    | some mail => if isDown then .error (.badPath "Connection refused") else .ok mail
  | .chat, _ => if env.get "SLACK_WEBHOOK_URL" "" = "" then .ok none else .error (.missingModule "aiohttp")

end CodeAudit.Alert

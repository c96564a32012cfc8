import CodeAudit.Cache
import CodeAudit.Config.Variables
import CodeAudit.Digest
import CodeAudit.Scratch
import CodeAudit.Text.Template

/-! Prompts for an assistant and its answers, collected in a file. What a prompt does not say is
taken from the default. -/

namespace CodeAudit.Prompt

def standard : Value :=
  .object [
    ("default", .object [
      ("system", "Vous êtes un expert en analyse de code Python."), ("temperature", .float 0.7),
      ("max_tokens", .int 2000)]),
    ("custom_prompts", .object [
      ("code_review", .object [
        ("system", "Vous êtes un expert en revue de code Python."),
        ("user", "Veuillez examiner le code suivant : \x7bcode\x7d"), ("temperature", .float 0.3)]),
      ("project_analysis", .object [
        ("system", .text
          "Vous êtes un expert en architecture logicielle et en analyse de code Python."),
        ("user",
          "Analysez le fichier suivant :\nChemin: " ++ "\x7bfile_path\x7d" ++
          ("\n\nCode:\n\x60\x60\x60python\n" ++ "\x7bcode\x7d" ++
          ("\n\x60\x60\x60\n\nFournissez une analyse détaillée incluant :\n" ++
          "1. Structure et organisation du code\n2. Bonnes pratiques et patterns utilisés\n" ++
          "3. Points d'amélioration potentiels\n4. Problèmes de sécurité éventuels\n" ++
          "5. Suggestions d'optimisation\n"))),
        ("temperature", .float 0.5)])])]

/-- Where a dictionary of a library stands: among the templates, under the name of a prompt, or
among those that were made later. -/
inductive Place where
  | prompt (name : Value)
  | made (n : Nat)

structure Library where
  templates : Value
  default : Value
  made : List Value := []

def spread (v : Value) : Outcome (List (Value × Value)) :=
  match v with
  | .object _ | .mapping _ => v.items
  | v => .error (v.cannot "is not a mapping")

def userText (prompt : Value) (vars : Entries) : Outcome (Option String) := do
  if !(← prompt.holds "user") then return none
  Template.fill (← (← prompt.member "user").textFor "format") vars

namespace Library

def ofValue (v : Value) : Outcome Library := do
  return { templates := v, default := ← v.fetch "default" (.object []) }

variable (l : Library)

def prompts : Outcome Value := l.templates.fetch "custom_prompts" (.object [])

def read : Place → Outcome Value
  | .prompt name => do (← l.prompts).memberAt name
  | .made n => .ok (l.made.getD n .null)

/-- Changes the dictionary at a place, and so the templates if it is one of theirs. -/
def write (place : Place) (key : String) (new : Value) : Outcome Library := do
  let changed ← (← l.read place).assign key new
  match place with
  | .prompt name =>
    return { l with templates := ← l.templates.assign "custom_prompts" (← (← l.prompts).assignAt name changed) }
  | .made n => return { l with made := l.made.set n changed }

def copy (place : Place) : Outcome (Place × Library) := do
  let v ← l.read place
  match v with
  | .object _ | .mapping _ | .list _ => return (.made l.made.length, { l with made := l.made ++ [v] })
  | v => throw (v.lacks "copy")

def fill (place : Place) (vars : Entries) : Outcome Library := do
  match ← userText (← l.read place) vars with
  | some text => l.write place "user" text
  | none => return l

def completed (place : Place) : Outcome Value := do
  return .ofPairs ((← spread l.default) ++ (← spread (← l.read place)))

def inPrompt (name : Value) (f : Fault) : Fault :=
  match f with
  | .missingKey _ | .missingItem _ =>
    .missingKey ("Variable manquante pour le prompt '" ++ name.display ++ "': " ++ f.text)
  | f => f

/-- A prompt with its variables filled in, and the library after that. It is filled in on a copy. -/
def get (name : Value) (vars : Entries) : Outcome Value × Library :=
  match l.prompts >>= name.occursIn with
  | .error f => (.error f, l)
  | .ok false => (.error (.badValue ("Prompt '" ++ name.display ++ "' non trouvé")), l)
  | .ok true =>
    match l.copy (.prompt name) with
    | .error f => (.error (inPrompt name f), l)
    | .ok (place, l) =>
      match l.fill place vars with
      | .error f => (.error (inPrompt name f), l)
      | .ok l => ((l.completed place).mapError (inPrompt name), l)

end Library

end CodeAudit.Prompt

namespace CodeAudit.Assistant

structure Consultation where
  prompt : Value
  args : Entries

def Consultation.toValue (c : Consultation) : Value := .list [.list [c.prompt], .object c.args]

structure Dataset where
  name : String
  data : Value := .list []
  file : Option String := none
  calls : List Consultation := []

namespace Dataset

def wayTo (name : String) : List String := (Path.parts (name ++ ".json")).dropWhile (· = "..")

def openFile (name : String) (file : Option String) : Outcome Dataset := do
  if Scratch.maxName < ((wayTo name).headD "").utf8ByteSize then throw Scratch.tooLong
  match file with
  | none => return { name }
  | some text => return { name, data := ← Json.parse text, file }

variable (d : Dataset)

def isWritable : Bool := d.file.isSome || (wayTo d.name).length ≤ 1

def save : Outcome Dataset :=
  if d.name.toList.contains '\x00' then .error (.badValue "embedded null byte")
  else if d.isWritable then .ok { d with file := some (Json.write { ascii := false, indent := some 2 } d.data) }
  else .error .noFile

def consultation (config : Value) : Outcome Consultation := do
  let prompt ← config.member "user"
  return {
    prompt
    args := [
      ("system_message", ← config.fetch "system" .null),
      ("temperature", ← config.fetch "temperature" (.float 0.7)),
      ("max_tokens", ← config.fetch "max_tokens" (.int 1000))] }

def append (d : Dataset) (entry : Value) : Outcome Dataset :=
  match d.data with
  | .list items => .ok { d with data := .list (items ++ [entry]) }
  | v => .error (v.lacks "append")

def promptVars (vars : Value) : Outcome Entries :=
  match vars with
  | .object entries =>
    if (entries.lookup "prompt_name").isSome || (entries.lookup "self").isSome then
      .error (.wrongType "got multiple values for argument")
    else .ok entries
  | _ => .error (.wrongType "argument after ** must be a mapping")

def complete (prompts : Prompt.Library) (assistant : Outcome Value) (name vars : Value) :
    Outcome Value × Dataset :=
  match (do consultation (← (prompts.get name (← promptVars vars)).1)) with
  | .error f => (.error f, d)
  | .ok call =>
    let d := { d with calls := d.calls ++ [call] }
    match assistant with
    | .error f => (.error f, d)
    | .ok response =>
      match d.append (.object [("input", vars), ("prompt_name", name), ("response", response)]) with
      | .error f => (.error f, d)
      | .ok d =>
        match d.save with
        | .error f => (.error f, d)
        | .ok d => (.ok response, d)

end Dataset

def codeFigures (code : String) : Value :=
  let lines := Text.splitOn '\n' code
  let starting := fun (word : String) => (lines.filter fun l => Text.startsWith word (Text.strip l)).length
  .object [
    ("Lignes de code", .nat lines.length), ("Caractères", .nat code.length),
    ("Fonctions", .nat (starting "def ")), ("Classes", .nat (starting "class "))]

inductive Notice where
  | history (file : Value)
  | analysis (service : String)
  | error

def Notice.toValue : Notice → Value
  | .history file => .list ["history", file]
  | .analysis service => .list ["analysis", service]
  | .error => .list ["error"]

structure Listeners where
  history : Bool := false
  stats : Bool := false

/-- An analysis of code by an assistant, with the notices and the calls that it causes. The security
review is started and not waited for. -/
def analyzeCode (now : Time.DateTime) (service : String) (assistant : Outcome Value) (who : Listeners)
    (code filename : Value) : Outcome Value × List Notice × List Consultation :=
  let start : Dataset := { name := "streamlit_analysis" }
  let prompts : Prompt.Library := { templates := Prompt.standard, default := .object [] }
  let prompts := (Prompt.Library.ofValue Prompt.standard).toOption.getD prompts
  let (answer, d) := start.complete prompts assistant "project_analysis"
    (.object [("file_path", filename), ("code", code)])
  let result : Outcome Value := do
    let analysis ← answer
    let text ← code.textFor "split"
    return .object [
      ("file", filename), ("code", code), ("analysis", analysis), ("stats", codeFigures text),
      ("security", "coroutine"), ("timestamp", now.text), ("service", service)]
  let notices := match result with
    | .ok _ => (if who.history then [Notice.history filename] else []) ++
        (if who.stats then [.analysis service] else [])
    | .error _ => if who.stats then [.error] else []
  (result, notices, d.calls)

end CodeAudit.Assistant

namespace CodeAudit.Assistant

open Config

def keyVariables : List (String × String) := [("openai", "OPENAI_API_KEY"), ("google", "GOOGLE_API_KEY")]

variable (env : Environment)

def activeService : String := env.get "AI_SERVICE" "openai"

def variableOf (service : Value) : Outcome (Option String) := do
  let _ ← service.keyText
  match service with
  | .text s => return keyVariables.lookup s
  | _ => return none

def keyFor (service : Value) : Outcome (Option String) := do
  let service := if service.truthy then service else (activeService env)
  return (← variableOf service).bind fun name => env.lookup name

def hasKey (service : String) : Bool :=
  match keyFor env service with
  | .ok (some key) => !key.isEmpty
  | _ => false

def isKey (key service : Value) : Bool :=
  let check : Outcome Bool := do
    if !key.truthy then return false
    if (← key.size) < 20 then return false
    if service.equals "openai" then return Text.startsWith "sk-" (← key.textFor "startswith")
    return true
  check.toOption.getD false

def setKey (service key : Value) : Bool × Environment :=
  match variableOf service, key with
  | .ok (some name), .text s =>
    if isKey key service then
      match Variables.put env name s with
      | .ok env => (true, env)
      | .error _ => (false, env)
    else (false, env)
  | _, _ => (false, env)

/-! Questions to an assistant. Answers are kept under a digest of the question and its further
arguments. -/

open Cache Time

abbrev Service (T : Type) := T → String → Entries → Outcome String × T

structure Question where
  prompt : String
  maxTokens : Value := .null
  temperature : Value := .null
  extra : Entries := []

structure Stats where
  tokens : Nat
  duration : Float
  cost : Float
  cacheHit : Bool

def Stats.toValue (s : Stats) : Value := .object [
  ("tokens", .nat s.tokens), ("duration", .float s.duration), ("cost", .float s.cost),
  ("cache_hit", .bool s.cacheHit)]

def wordCount (s : String) : Nat := (Text.words s).length

def digestText (prompt : Value) (extra : Entries) : String :=
  Json.write { sorted := true } (.object (("prompt", prompt) :: extra))

def questionKey (prompt : Value) (extra : Entries) : String := Digest.sha256 (digestText prompt extra).toUTF8.toList

def usualTokens (prompt : String) : Nat := min 4000 (wordCount prompt * 2)

def usualTemperature (prompt : String) : Float :=
  let mentions (word : String) := Text.occurs word (lowerText prompt)
  if mentions "analyze" || mentions "evaluate" then 0.3
  else if mentions "creative" || mentions "generate" then 0.9
  else 0.7

def cost (prompt response : String) : Float := (wordCount prompt + wordCount response).toFloat * 0.00002

def orElse (v w : Value) : Value := if v.truthy then v else w

def callArguments (q : Question) : Entries :=
  ("max_tokens", orElse q.maxTokens (.nat (usualTokens q.prompt))) ::
    ("temperature", orElse q.temperature (.float (usualTemperature q.prompt))) :: q.extra

structure Optimizer (T : Type) where
  cache : Smart T String := {}
  history : List (Int × Stats) := []

namespace Optimizer

variable {T : Type} [Seconds T]

def secondsBetween (start finish : T) : Float :=
  Float.ofInt (Seconds.micros finish - Seconds.micros start) / 1000000.0

def cachedAnswer (found : Value) : Value :=
  let tokens := match found with
    | .object entries => (entries.lookup "tokens").getD (.int 0)
    | _ => .int 0
  let stats := Value.object [
    ("tokens", tokens), ("duration", .float 0.0), ("cost", .float 0.0), ("cache_hit", .bool true)]
  match found with
  | .object entries => .object (Entries.put "stats" stats entries)
  | v => v

def ask (o : Optimizer T) (service : Service T) (now : T) (q : Question) : Outcome Value × T × Optimizer T :=
  let key := questionKey q.prompt q.extra
  let (found, cache) := o.cache.fetch now key
  let o := { o with cache }
  if found.truthy then (.ok (cachedAnswer found), now, o)
  else
    match service now q.prompt (callArguments q) with
    | (.error f, later) => (.error f, later, o)
    | (.ok response, later) =>
      let stats : Stats := {
        tokens := wordCount q.prompt + wordCount response
        duration := secondsBetween now later, cost := cost q.prompt response, cacheHit := false }
      let answer := Value.object [("response", response), ("stats", stats.toValue)]
      let (_, _, cache) := o.cache.keep later key answer
      (.ok answer, later, { cache, history := o.history ++ [(Seconds.micros later, stats)] })

def report (o : Optimizer T) (cutoff : Int) : Value :=
  let recent := (o.history.filter fun e => cutoff < e.1).map (·.2)
  let count := recent.length.toFloat
  let hits := (recent.filter Stats.cacheHit).length.toFloat
  let rate := if recent.isEmpty then 0.0 else hits / count
  let duration := if recent.isEmpty then 0.0 else recent.foldl (fun sum s => sum + s.duration) 0.0 / count
  .object [("query_count", .nat recent.length), ("cache_hit_rate", .float rate),
    ("avg_duration", .float duration),
    ("total_cost", .float (recent.foldl (fun sum s => sum + s.cost) 0.0))]

end Optimizer

end CodeAudit.Assistant

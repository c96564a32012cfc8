import CodeAudit.Journal
import CodeAudit.Store

/-! Sessions of users, kept as signed records in a store. What is done to a session is a program of
single commands, which can also be run with other commands between them. -/

namespace CodeAudit.Session

open Journal Time

inductive Record where
  | signed (data : Value) (second : Int)
  | junk

def maxAge : Int := 3600

namespace Record

def data : Record → Outcome Value
  | .signed v _ => .ok v
  | .junk => .error (.badValue "No b'.' found in value")

def freshData (r : Record) (now : Int) : Outcome Value :=
  match r with
  | .signed v second =>
    let age := now - second
    if maxAge < age then
      .error (.badValue ("Signature age " ++ intText age ++ " > " ++ intText maxAge ++ " seconds"))
    else if age < 0 then .error (.badValue ("Signature age " ++ intText age ++ " < 0 seconds"))
    else .ok v
  | .junk => data .junk

end Record

inductive Program (T α : Type) where
  | done (answer : α)
  | get (key : String) (next : Outcome (Option Record) → Program T α)
  | put (key : String) (record : Record) (lifetime : Option T) (next : Outcome Unit → Program T α)
  | delete (key : String) (next : Outcome Bool → Program T α)
  | scan (next : Outcome (List String) → Program T α)

def keyOf (id : String) : String := "session:" ++ id

variable {T : Type} [Seconds T]

def Program.run {α : Type} (now : T) : Program T α → Store T String Record → α × Store T String Record
  | .done a, s => (a, s)
  | .get key next, s => let (r, s) := s.get now key; (next r).run now s
  | .put key record lifetime next, s => let (r, s) := s.put now key record lifetime; (next r).run now s
  | .delete key next, s => let (r, s) := s.delete now key; (next r).run now s
  | .scan next, s =>
    let found := s.keys.filter fun key => Text.startsWith (keyOf "") key
    (next (if s.isDown then .error Store.down else .ok found)).run now s

abbrev Answer := Outcome Value × List Event

variable (now : T)

def timeText : String := (Seconds.toDateTime now).text

def save {α : Type} (now : T) (id : String) (data : Value) (next : Outcome Unit → Program T α) : Program T α :=
  .put (keyOf id) (.signed data (Seconds.whole now)) (some (Seconds.ofNum (.int maxAge))) next

variable (id : String)

def create (user data : Value) : Program T Answer :=
  let record := Value.object [
    ("user_id", user), ("data", data), ("created_at", timeText now),
    ("expires_at", timeText (now + Seconds.ofNum (.int maxAge))),
    ("last_activity", timeText now)]
  save now id record fun
    | .error f => .done (.error f, [])
    | .ok () => .done (.ok id, [.note (Seconds.toDateTime now) "session_created"
        ("Nouvelle session créée pour l'utilisateur " ++ user.display) "INFO" [("session_id", id)]])

def trouble (description : String) (answer : Value) (f : Fault) : Program T Answer :=
  .done (.ok answer, [.note (Seconds.toDateTime now) "session_error" description "WARNING"
    [("error", f.text)]])

def stampUse (data : Value) : Outcome Value := data.assign "last_activity" ((timeText now))

def lookUp : Program T Answer :=
  let trouble := trouble now "Erreur lors de la récupération de session" .null
  if id = "" then .done (.ok .null, [])
  else .get (keyOf id) fun
    | .error f => trouble f
    | .ok none => .done (.ok .null, [])
    | .ok (some record) =>
      match record.freshData (Seconds.whole now) >>= stampUse now with
      | .error f => trouble f
      | .ok data => save now id data fun
        | .error f => trouble f
        | .ok () => .done (.ok data, [])

/-- Entries as they are read back from a signed record, where every key is a text. Of keys that are
written alike the last counts. -/
def asSigned : Value → Value
  | .mapping pairs => .object (Entries.ofList (pairs.map fun e => (Json.keyName e.1, e.2)))
  | v => v

def updated (record : Record) (new : Value) : Outcome Value := do
  let current ← record.data
  let merged ← (← current.member "data").mergeInto new
  current.assign "data" (asSigned merged) >>= stampUse now

def update (new : Value) : Program T Answer :=
  let trouble := trouble now "Erreur lors de la mise à jour de session" (.bool false)
  .get (keyOf id) fun
    | .error f => trouble f
    | .ok none => .done (.ok (.bool false), [])
    | .ok (some record) =>
      match updated now record new with
      | .error f => trouble f
      | .ok data => save now id data fun
        | .error f => trouble f
        | .ok () => .done (.ok (.bool true), [])

def delete (now : T) (id : Value) : Program T Answer :=
  .delete (keyOf id.display) fun
    | .error f => .done (.error f, [])
    | .ok _ => .done (.ok .null, [.note (Seconds.toDateTime now) "session_deleted" "Session supprimée" "INFO"
        [("session_id", id)]])

def isOver (record : Record) : Outcome Bool := do
  let data ← record.data
  match ← data.member "expires_at" with
  | .text s =>
    let t ← Time.parse s
    if t.offset.isSome then
      .error (.wrongType "can't compare offset-naive and offset-aware datetimes")
    else return decide (t.localMicros < Seconds.micros now)
  | _ => .error (.wrongType "fromisoformat: argument must be str")

def sweep (now : T) : List String → Nat → Program T Answer
  | [], n => .done (.ok (.nat n), if n = 0 then [] else [.note (Seconds.toDateTime now)
      "sessions_cleaned" (natText n ++ " sessions expirées supprimées") "INFO"])
  | key :: rest, n => .get key fun
    | .ok none => sweep now rest n
    | r =>
      let keep := match r with
        | .ok (some record) => (isOver now record).toOption.any (!·)
        | _ => false
      if keep then sweep now rest n
      else .delete key fun
        | .error f => .done (.error f, [])
        | .ok _ => sweep now rest (n + 1)

def cleanUp : Program T Answer :=
  .scan fun
    | .error f => .done (.error f, [])
    | .ok keys => sweep now keys 0

def cookie : String :=
  "session_id=" ++ id ++ "; HttpOnly; Max-Age=" ++ intText maxAge ++ "; Path=/; SameSite=Strict; Secure"

def endCookie : String := "session_id=\"\"; expires=?; HttpOnly; Max-Age=0; Path=/; SameSite=Strict; Secure"

end CodeAudit.Session

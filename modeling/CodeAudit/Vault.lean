import CodeAudit.Json

/-! Secrets kept under names, written as one sealed document to a file after every change. The
key of the seal comes from a phrase in the environment, and no other key opens what was sealed
with it. -/

namespace CodeAudit

structure Sealed where
  key : String
  plain : String

namespace Sealed

def reveal (s : Sealed) (key : String) : Outcome String := if s.key = key then .ok s.plain else .error .badSeal

theorem reveal_self (key plain : String) : (Sealed.mk key plain).reveal key = .ok plain := if_pos rfl

end Sealed

inductive VaultFile where
  | sealed (s : Sealed)
  | junk

structure Vault where
  phrase : String
  key : String
  secrets : Value := .object []
  file : Option VaultFile := none
  writable : Bool := true

namespace Vault

def keyOf (phrase : String) : Outcome String :=
  if phrase.isEmpty then
    .error (.badValue "SECRET_KEY non d��finie dans les variables d'environnement")
  else .ok phrase

def secretsOf (key : String) : Option VaultFile → Value
  | some (.sealed s) => (s.reveal key >>= Json.parse).toOption.getD (.object [])
  | some .junk | none => .object []

def openFile (phrase : String) (file : Option VaultFile) : Outcome Vault := do
  let key ← keyOf phrase
  return { phrase, key, secrets := secretsOf key file, file }

variable (v : Vault)

def sealedWith (key : String) : Sealed := ⟨key, Json.write {} v.secrets⟩

def save : Outcome Unit × Vault :=
  if v.writable then (.ok (), { v with file := some (.sealed (v.sealedWith v.key)) })
  else (.error .noFile, v)

def get (name default : Value) : Outcome Value := v.secrets.fetchAt name default

def set (name secret : Value) : Outcome Unit × Vault :=
  match v.secrets.assignAt name secret with
  | .error f => (.error f, v)
  | .ok secrets => save { v with secrets }

def delete (name : Value) : Outcome Unit × Vault :=
  match name.occursIn v.secrets with
  | .error f => (.error f, v)
  | .ok false => (.ok (), v)
  | .ok true =>
    match v.secrets.removeAt name with
    | .error f => (.error f, v)
    | .ok secrets => save { v with secrets }

/-- Takes the key of the phrase into use. The secrets are sealed with the old key and opened with
the new one before they are written. -/
def rotate : Outcome Unit × Vault :=
  match (do
    let key ← keyOf v.phrase
    let _ ← (v.sealedWith v.key).reveal key
    return key) with
  | .error f => (.error f, v)
  | .ok key => save { v with key }

def clear : Vault := { v with secrets := .object [], file := none }

def names : List Value := ((v.secrets.items).toOption.getD []).map (·.1)

end Vault

end CodeAudit

import CodeAudit.Number.Written

/-! Variables of the environment, and files of them, one `NAME=value` to a line. A file is read into
bindings whose sources together make up the file, so that one can be replaced and all else kept. -/

namespace CodeAudit.Config

abbrev Environment := List (String × String)

def Environment.get (e : Environment) (name default : String) : String := (e.lookup name).getD default

variable (s : String)

def saysTrue : Bool := lowerText s == "true"

def truth? : Option Bool :=
  if lowerText s = "true" then some true else if lowerText s = "false" then some false else none

def guess : Value :=
  let number := if s.toList.contains '.' then (floatOfText? s).map Value.float
    else (intOfText? s).map Value.int
  match number, truth? s with
  | some v, _ => v
  | none, some b => .bool b
  | none, none => s

namespace Variables

structure Binding where
  name : Option String := none
  value : Option String := none
  source : String := ""

def isSpace (c : Char) : Bool := isBlank c && c != '\n' && c != '\r'

variable (s : Chars)

def skipSpaces : Chars := s.dropWhile isSpace

def run (p : Char → Bool) (s : Chars) : Except Chars (Chars × Chars) :=
  if (s.takeWhile p).isEmpty then .error s else .ok (s.takeWhile p, s.dropWhile p)

def skipExport : Chars :=
  match Chars.afterPrefix "export".toList s with
  | some rest => if (rest.takeWhile isSpace).isEmpty then s else skipSpaces rest
  | none => s

def name : Except Chars (Option Chars × Chars) :=
  match s with
  | '#' :: _ => .ok (none, s)
  | '\'' :: rest =>
    match run (· != '\'') rest with
    | .ok (cs, '\'' :: after) => .ok (some cs, after)
    | _ => .error s
  | _ => do
    let (cs, rest) ← run (fun c => c != '=' && c != '#' && !isBlank c) s
    return (some cs, rest)

/-- The text up to the quote that closes it: the first one that has no backslash before it, or if
there is none the last one that has. -/
def upToQuote (quote : Char) (last : Option (Chars × Chars)) (found : Chars) (escaped : Bool) :
    Chars → Option (Chars × Chars)
  | [] => last
  | c :: rest =>
    if c = quote then
      if escaped then upToQuote quote (some (found.reverse, rest)) (c :: found) false rest
      else some (found.reverse, rest)
    else upToQuote quote last (c :: found) (c == '\\') rest

def inQuotes (quote : Char) (s : Chars) : Except Chars (Chars × Chars) :=
  match upToQuote quote none [] false (s.drop 1) with
  | some found => .ok found
  | none => .error s

def escapes : List (Char × Char) := [
  ('\\', '\\'), ('\'', '\''), ('"', '"'), ('a', '\x07'), ('b', '\x08'), ('f', '\x0c'), ('n', '\n'),
  ('r', '\r'), ('t', '\t'), ('v', '\x0b')]

def plainEscapes : List (Char × Char) := [('\\', '\\'), ('\'', '\'')]

def unescape (table : List (Char × Char)) : Chars → Chars
  | '\\' :: c :: rest =>
    match table.lookup c with
    | some d => d :: unescape table rest
    | none => '\\' :: unescape table (c :: rest)
  | c :: rest => c :: unescape table rest
  | [] => []
termination_by s => s.length

def dropRemark : Chars → Chars
  | [] => []
  | c :: rest =>
    if isBlank c && ((rest.dropWhile isBlank).head? == some '#') then []
    else c :: dropRemark rest

def value : Except Chars (Chars × Chars) :=
  match s with
  | '\'' :: _ => do
    let (cs, rest) ← inQuotes '\'' s
    return (unescape plainEscapes cs, rest)
  | '"' :: _ => do
    let (cs, rest) ← inQuotes '"' s
    return (unescape escapes cs, rest)
  | _ =>
    let line := s.takeWhile (· != '\n')
    .ok (Chars.dropRight isBlank (dropRemark line), s.drop line.length)

def skipRemark : Chars := if (skipSpaces s).head? == some '#' then s.dropWhile (· != '\n') else s

def lineEnd : Except Chars (Unit × Chars) :=
  match skipSpaces s with
  | [] => .ok ((), [])
  | '\n' :: rest => .ok ((), rest)
  | _ => .error s

def content : Except Chars ((Option String × Option String) × Chars) := do
  let s := s.dropWhile isBlank
  if s.isEmpty then return ((none, none), [])
  let (found, s) ← name (skipExport s)
  let s := skipSpaces s
  let (given, s) ← match s with
    | '=' :: rest => do
      let (v, s) ← value (skipSpaces rest)
      pure (some (String.ofList v), s)
    | _ => .ok (none, s)
  let (_, s) ← lineEnd (skipRemark s)
  return ((found.map String.ofList, given), s)

def binding : Binding × Chars :=
  let upTo := fun (rest : Chars) => String.ofList (s.take (s.length - rest.length))
  match content s with
  | .ok ((name, value), rest) => ({ name, value, source := upTo rest }, rest)
  | .error rest =>
    let rest := (rest.dropWhile (· != '\n')).drop 1
    ({ source := upTo rest }, rest)

def bindingsWithin : Nat → Chars → List Binding
  | 0, _ => []
  | _, [] => []
  | fuel + 1, s =>
    let (b, rest) := binding s
    b :: bindingsWithin fuel rest

def bindings (text : String) : List Binding :=
  let s := Chars.unifyNewlines text.toList
  bindingsWithin s.length s

def line (name value : String) : String := name ++ "='" ++ Text.replace "'" "\\'" value ++ "'\n"

def set (text name value : String) : String :=
  let bs := bindings text
  let kept := bs.map fun b => if b.name = some name then line name value else b.source
  if bs.any (·.name = some name) then String.join kept
  else
    let text := String.join kept
    text ++ (if text.isEmpty || Text.endsWith "\n" text then "" else "\n") ++ line name value

inductive Part where
  | text (c : Char)
  | reference (name default : Chars)

def referenceAt : Option (Part × Chars) :=
  match s with
  | '$' :: '\x7b' :: rest =>
    let name := rest.takeWhile fun c => c != '\x7d' && c != ':'
    match rest.drop name.length with
    | '\x7d' :: rest => some (.reference name [], rest)
    | ':' :: '-' :: rest =>
      let default := rest.takeWhile (· != '\x7d')
      match rest.drop default.length with
      | '\x7d' :: rest => some (.reference name default, rest)
      | _ => none
    | _ => none
  | _ => none

def partsWithin : Nat → Chars → List Part
  | 0, _ => []
  | _, [] => []
  | fuel + 1, c :: rest =>
    match referenceAt (c :: rest) with
    | some (part, after) => part :: partsWithin fuel after
    | none => .text c :: partsWithin fuel rest

def expand (look : String → Option String) (value : String) : String :=
  String.join ((partsWithin value.length value.toList).map fun
    | .text c => c.toString
    | .reference name default => (look (String.ofList name)).getD (String.ofList default))

/-- The values that a file gives to names. Names bound in the file stand before those of the
environment if the file overrides it. -/
def values (overrides : Bool) (env : Environment) (text : String) : List (String × Option String) :=
  (bindings text).foldl (fun found b =>
    match b.name with
    | none => found
    | some name =>
      let inFile := fun n => (found.lookup n).map (·.getD "")
      let look := fun n => if overrides then (inFile n).or (env.lookup n) else (env.lookup n).or (inFile n)
      let v := b.value.map (expand look)
      if (found.lookup name).isSome then found.map fun e => if e.1 = name then (name, v) else e
      else found ++ [(name, v)]) []

def put (env : Environment) (name value : String) : Outcome Environment :=
  if name.toList.contains '\x00' || value.toList.contains '\x00' then .error (.badValue "embedded null byte")
  else if name.toList.contains '=' then .error (.badValue "illegal environment variable name")
  else if (env.lookup name).isSome then .ok (env.map fun e => if e.1 = name then (name, value) else e)
  else .ok (env ++ [(name, value)])

/-- Sets variables one after the other, up to the first that cannot be set. Those that are set are
kept, unless overridden. -/
def putAll (overrides : Bool) (env : Environment) : List (String × Option String) → Outcome Unit × Environment
  | [] => (.ok (), env)
  | (_, none) :: rest => putAll overrides env rest
  | (name, some v) :: rest =>
    if (env.lookup name).isSome && !overrides then putAll overrides env rest
    else match put env name v with
      | .error f => (.error f, env)
      | .ok env => putAll overrides env rest

def load (overrides : Bool) (env : Environment) (text : String) : Outcome Unit × Environment :=
  putAll overrides env (values overrides env text)

end Variables

end CodeAudit.Config

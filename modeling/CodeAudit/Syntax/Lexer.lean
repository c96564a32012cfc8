import CodeAudit.Text.LetterCase

/-! Cuts program text into tokens. Line ends outside brackets end statements; leading blanks open
and close blocks. A string token keeps its body as written. -/

namespace CodeAudit.Syntax

structure StringFlags where
  bytes : Bool
  raw : Bool
  formatted : Bool
deriving DecidableEq

inductive TokenKind where
  | name (s : String)
  | number (imaginary : Bool)
  | string (flags : StringFlags) (body : Chars)
  | op (s : String)
  | newline
  | indent
  | dedent
  | stop
deriving DecidableEq

structure Token where
  kind : TokenKind
  line : Nat
  endLine : Nat

def keywords : List String := [
  "False", "None", "True", "and", "as", "assert", "async", "await", "break", "class", "continue",
  "def", "del", "elif", "else", "except", "finally", "for", "from", "global", "if", "import", "in",
  "is", "lambda", "nonlocal", "not", "or", "pass", "raise", "return", "try", "while", "with", "yield"]

def operators : List String := [
  "**=", "//=", ">>=", "<<=", "...", "!=", "%=", "&=", "**", "*=", "+=", "-=", "->", "//", "/=", ":=",
  "<<", "<=", "==", ">=", ">>", "@=", "^=", "|=", "%", "&", "(", ")", "*", "+", ",", "-", ".", "/",
  ":", ";", "<", "=", ">", "@", "[", "]", "^", "\x7b", "|", "\x7d", "~"]

end CodeAudit.Syntax

namespace CodeAudit.Syntax.Lexer

variable (s : Chars)

def normalize : Chars :=
  let rec go : Chars → Chars
    | [] => []
    | '\r' :: '\n' :: rest => '\n' :: go rest
    | '\r' :: rest => '\n' :: go rest
    | c :: rest => c :: go rest
  let s := go s
  if s.getLast? = some '\n' ∨ s = [] then s else s ++ ['\n']

structure Indent where
  column : Nat
  plain : Nat
deriving DecidableEq

structure State where
  blocks : List Indent := []
  brackets : Chars := []
  line : Nat := 1
  lineStart : Bool := true
  tokens : List Token := []

variable (st : State)

def State.block : Indent := st.blocks.headD ⟨0, 0⟩

def State.push (kind : TokenKind) : State := { st with tokens := ⟨kind, st.line, st.line⟩ :: st.tokens }

variable (c : Char)

def mayStart : Bool := c == '_' || c.isAlpha || 128 ≤ c.toNat

def mayContinue : Bool := mayStart c || c.isDigit

/-- The leading blanks of a line; a line joined by a backslash counts from the first line's depth.
Gives the depth, the rest and the lines passed. -/
def leading : Indent → Option Indent → Nat → Chars → Option (Indent × Chars × Nat)
  | depth, joined, lines, ' ' :: rest => leading ⟨depth.column + 1, depth.plain + 1⟩ joined lines rest
  | depth, joined, lines, '\t' :: rest => leading ⟨(depth.column / 8 + 1) * 8, depth.plain + 1⟩ joined lines rest
  | _, joined, lines, '\x0c' :: rest => leading ⟨0, 0⟩ joined lines rest
  | depth, joined, lines, '\\' :: '\n' :: rest =>
    let kept := joined.orElse fun _ =>
      if depth.column = 0 then none else some ⟨depth.column, depth.column⟩
    if rest.isEmpty then none else leading depth kept (lines + 1) rest
  | _, _, _, '\\' :: _ => none
  | depth, joined, lines, s => some (joined.getD depth, s, lines)

def closeBlocks (level : Indent) : List Indent → State → Option State
  | [], st => if level.column = 0 ∧ level.plain = 0 then some { st with blocks := [] } else none
  | b :: rest, st =>
    if level.column < b.column then closeBlocks level rest (st.push .dedent)
    else if level = b then some { st with blocks := b :: rest }
    else none

def enterLine (level : Indent) (st : State) : Option State :=
  let top := st.block
  if level.column = top.column then (if level.plain = top.plain then some st else none)
  else if top.column < level.column then
    if level.plain ≤ top.plain ∨ 99 ≤ st.blocks.length then none
    else some { st.push .indent with blocks := level :: st.blocks }
  else closeBlocks level st.blocks st

def stringStart : Option (StringFlags × Char × Chars) :=
  let letters := s.takeWhile Char.isAlpha
  let lower := letters.map Char.toLower
  match s.drop letters.length with
  | q :: rest =>
    if q = '"' ∨ q = '\'' then
      let known := [[], ['r'], ['u'], ['b'], ['f'], ['b', 'r'], ['r', 'b'], ['f', 'r'], ['r', 'f']]
      if known.contains lower then
        some (⟨lower.contains 'b', lower.contains 'r', lower.contains 'f'⟩, q, rest)
      else none
    else none
  | [] => none

def stringBody (quote : Char) (triple : Bool) : Chars → Chars → Option (Chars × Chars)
  | _, [] => none
  | acc, '\\' :: c :: rest => stringBody quote triple (c :: '\\' :: acc) rest
  | acc, c :: rest =>
    if c = quote then
      if triple then
        match rest with
        | d :: e :: more =>
          if d = quote ∧ e = quote then some (acc.reverse, more)
          else stringBody quote triple (c :: acc) rest
        | _ => none
      else some (acc.reverse, rest)
    else if c = '\n' ∧ !triple then none
    else stringBody quote triple (c :: acc) rest

def stringRest (quote : Char) (rest : Chars) : Option (Chars × Chars) :=
  match rest with
  | a :: b :: more =>
    if a = quote ∧ b = quote then stringBody quote true [] more
    else if a = quote then some ([], b :: more)
    else stringBody quote false [] rest
  | _ => stringBody quote false [] rest

def digitGroups (p : Char → Bool) : Chars → Option (Chars × Chars)
  | [] => some ([], [])
  | '_' :: rest => if rest.head?.any p then digitGroups p rest else none
  | c :: rest =>
    if p c then (digitGroups p rest).map fun (digits, rest) => (c :: digits, rest)
    else some ([], c :: rest)

def afterDigits (p : Char → Bool) (s : Chars) : Option Chars := (digitGroups p s).map (·.2)

def endsNumber : Bool :=
  let followers := ["and", "else", "for", "if", "in", "is", "or", "not"]
  match s with
  | c :: _ => !mayContinue c || followers.any fun w => Chars.startsWith w.toList s
  | [] => true

def numberEnd : Option (Bool × Chars) :=
  match s with
  | c :: rest =>
    if c = 'j' ∨ c = 'J' then (if endsNumber rest then some (true, rest) else none)
    else if endsNumber s then some (false, s)
    else none
  | [] => some (false, [])

def exponent : Option (Bool × Chars) :=
  match s with
  | c :: rest =>
    if c = 'e' ∨ c = 'E' then
      match rest with
      | d :: more =>
        if d = '+' ∨ d = '-' then
          match more with
          | e :: _ => if e.isDigit then (afterDigits Char.isDigit more).bind numberEnd else none
          | [] => none
        else if d.isDigit then (afterDigits Char.isDigit rest).bind numberEnd
        else if endsNumber s then some (false, s)
        else none
      | [] => if endsNumber s then some (false, s) else none
    else numberEnd s
  | [] => some (false, [])

def fraction : Option (Bool × Chars) :=
  match s with
  | c :: _ => if c.isDigit then (afterDigits Char.isDigit s).bind exponent else exponent s
  | [] => some (false, [])

def based (p : Char → Bool) (s : Chars) : Option (Bool × Chars) :=
  let s := match s with
    | '_' :: rest => rest
    | _ => s
  match s with
  | c :: _ =>
    if p c then
      match afterDigits p s with
      | some rest =>
        match rest with
        | d :: _ => if d.isDigit then none else if endsNumber rest then some (false, rest) else none
        | [] => some (false, [])
      | none => none
    else none
  | [] => none

def afterWhole : Option (Bool × Chars) :=
  match s with
  | '.' :: rest => fraction rest
  | _ => exponent s

def isHex : Bool := c.isDigit || ('a' ≤ c && c ≤ 'f') || ('A' ≤ c && c ≤ 'F')

/-- A whole number of several digits must not begin with zero, unless it is zero; a fraction, an
exponent or an imaginary mark may follow any digits. -/
def decimal : Option (Bool × Chars) := do
  let (digits, rest) ← digitGroups Char.isDigit s
  let zeroLed := digits.head? = some '0' ∧ digits.any (· != '0')
  match rest with
  | c :: _ =>
    if zeroLed ∧ ¬ (c = '.' ∨ c = 'e' ∨ c = 'E' ∨ c = 'j' ∨ c = 'J') then none
    else if 4300 < digits.length ∧ ¬ (c = '.' ∨ c = 'e' ∨ c = 'E' ∨ c = 'j' ∨ c = 'J') then none
    else afterWhole rest
  | [] => if zeroLed ∨ 4300 < digits.length then none else some (false, [])

def number : Option (Bool × Chars) :=
  match s with
  | '0' :: c :: rest =>
    if c = 'x' ∨ c = 'X' then based isHex rest
    else if c = 'o' ∨ c = 'O' then based (fun d => '0' ≤ d && d ≤ '7') rest
    else if c = 'b' ∨ c = 'B' then based (fun d => d == '0' || d == '1') rest
    else decimal s
  | _ => decimal s

def closing : Char → Char
  | '(' => ')'
  | '[' => ']'
  | _ => '}'

def bracket (op : String) (st : State) : Option State :=
  match op.toList with
  | [c] =>
    if c = '(' ∨ c = '[' ∨ c = '{' then
      if 200 ≤ st.brackets.length then none else some { st with brackets := c :: st.brackets }
    else if c = ')' ∨ c = ']' ∨ c = '}' then
      match st.brackets with
      | o :: rest => if closing o = c then some { st with brackets := rest } else none
      | [] => none
    else some st
  | _ => some st

def operator (s : Chars) : Option (State × Chars) :=
  match operators.find? fun o => Chars.startsWith o.toList s with
  | some o => (bracket o st).map fun st => (st.push (.op o), s.drop o.length)
  | none => none

def stringToken (flags : StringFlags) (quote : Char) (rest : Chars) : Option (State × Chars) :=
  match stringRest quote rest with
  | some (body, rest) =>
    let endLine := st.line + body.count '\n'
    some ({ st with line := endLine, tokens := ⟨.string flags body, st.line, endLine⟩ :: st.tokens }, rest)
  | none => none

def nameToken (s : Chars) : Option (State × Chars) :=
  let word := s.takeWhile mayContinue
  let valid := match word with
    | [] => false
    | c :: rest => isIdentifierStart c && rest.all isIdentifierPart
  if valid then some (st.push (.name (String.ofList word)), s.drop word.length) else none

def inLine (s : Chars) : Option (State × Chars) :=
  match s with
  | [] => some (st, [])
  | ' ' :: rest | '\t' :: rest | '\x0c' :: rest => some (st, rest)
  | '#' :: rest => some (st, rest.dropWhile (· != '\n'))
  | '\n' :: rest =>
    if st.brackets.isEmpty then
      some ({ st.push .newline with line := st.line + 1, lineStart := true }, rest)
    else some ({ st with line := st.line + 1 }, rest)
  | '\\' :: rest =>
    match rest with
    | '\n' :: [] => none
    | '\n' :: more => some ({ st with line := st.line + 1 }, more)
    | _ => none
  | '.' :: c :: rest =>
    if c.isDigit then
      (fraction (c :: rest)).map fun (imaginary, rest) => (st.push (.number imaginary), rest)
    else operator st s
  | c :: _ =>
    match stringStart s with
    | some (flags, quote, rest) => stringToken st flags quote rest
    | none =>
      if mayStart c then nameToken st s
      else if c.isDigit then
        (number s).map fun (imaginary, rest) => (st.push (.number imaginary), rest)
      else operator st s

def step (s : Chars) : Option (State × Chars) :=
  if st.lineStart then
    match leading ⟨0, 0⟩ none 0 s with
    | none => none
    | some (level, rest, lines) =>
      let st := { st with line := st.line + lines }
      match rest with
      | [] => some (st, [])
      | '#' :: more =>
        let more := more.dropWhile (· != '\n')
        some ({ st with line := st.line + 1 }, more.drop 1)
      | '\n' :: more => some ({ st with line := st.line + 1 }, more)
      | _ => (enterLine level st).map fun st => ({ st with lineStart := false }, rest)
  else inLine st s

def run : Nat → State → Chars → Option State
  | 0, _, _ => none
  | fuel + 1, st, s =>
    match s with
    | [] => some st
    | _ => (step st s).bind fun (st, rest) => run fuel st rest

def tokensFrom (line : Nat) (s : Chars) : Option (List Token) := do
  let s := normalize s
  if s.contains (Char.ofNat 0) then none
  let st ← run (2 * s.length + 2) { line } s
  if !st.brackets.isEmpty then none
  let st := st.blocks.foldl (fun st _ => st.push .dedent) st
  return (st.push .stop).tokens.reverse

end CodeAudit.Syntax.Lexer

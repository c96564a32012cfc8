import CodeAudit.Syntax.Grammar
import CodeAudit.Syntax.Statement

/-! Formatted strings: literal text with expressions in braces, each perhaps with `=`, a conversion
and a format, which may hold expressions again. -/

namespace CodeAudit.Syntax.Formatted

inductive Stop where
  | doubled | brace

/-- The literal text up to a brace, last character first. Doubled braces count only at depth zero,
where a single closing brace is an error. -/
def literal (raw : Bool) (depth : Nat) : Nat → Chars → Chars → Option (Chars × Stop × Chars)
  | 0, _, _ => none
  | fuel + 1, acc, s =>
    let atBrace := fun (acc : Chars) (c : Char) (rest : Chars) =>
      if depth = 0 ∧ rest.head? = some c then some (c :: acc, Stop.doubled, rest.drop 1)
      else if depth = 0 ∧ c = '}' then none
      else some (acc, .brace, c :: rest)
    match s with
    | [] => some (acc, .brace, [])
    | '\\' :: c :: rest =>
      if raw then
        if c = '{' ∨ c = '}' then atBrace ('\\' :: acc) c rest
        else if c = '\\' then literal raw depth fuel ('\\' :: acc) (c :: rest)
        else literal raw depth fuel (c :: '\\' :: acc) rest
      else if c = 'N' then
        match rest with
        | '{' :: more =>
          let name := more.takeWhile (· != '}')
          let named := more.take (name.length + 1)
          literal raw depth fuel (named.reverse ++ '{' :: 'N' :: '\\' :: acc) (more.drop named.length)
        | [] => literal raw depth fuel ('N' :: '\\' :: acc) []
        | d :: more => literal raw depth fuel (d :: 'N' :: '\\' :: acc) more
      else if c = '{' ∨ c = '}' then atBrace ('\\' :: acc) c rest
      else literal raw depth fuel (c :: '\\' :: acc) rest
    | c :: rest =>
      if c = '{' ∨ c = '}' then atBrace acc c rest else literal raw depth fuel (c :: acc) rest

/-- The source of an expression, last character first, up to `!`, `:`, `=` or a closing brace
outside all brackets. `quote` is the open string's quote and whether it is tripled. -/
def source : Nat → Chars → Option (Char × Bool) → Chars → Chars → Option (Chars × Chars)
  | 0, _, _, _, _ => none
  | fuel + 1, brackets, quote, acc, s =>
    match s with
    | [] => none
    | '\\' :: _ => none
    | c :: rest =>
      match quote with
      | some (q, triple) =>
        if c = q then
          if triple then
            match rest with
            | d :: e :: more =>
              if d = q ∧ e = q then source fuel brackets none (e :: d :: c :: acc) more
              else source fuel brackets quote (c :: acc) rest
            | _ => source fuel brackets quote (c :: acc) rest
          else source fuel brackets none (c :: acc) rest
        else source fuel brackets quote (c :: acc) rest
      | none =>
        if c = '\'' ∨ c = '"' then
          match rest with
          | d :: e :: more =>
            if d = c ∧ e = c then source fuel brackets (some (c, true)) (e :: d :: c :: acc) more
            else source fuel brackets (some (c, false)) (c :: acc) rest
          | _ => source fuel brackets (some (c, false)) (c :: acc) rest
        else if c = '(' ∨ c = '[' ∨ c = '{' then
          if 200 ≤ brackets.length then none else source fuel (c :: brackets) none (c :: acc) rest
        else if c = '#' then none
        else if brackets.isEmpty ∧ (c = '!' ∨ c = ':' ∨ c = '}' ∨ c = '=' ∨ c = '<' ∨ c = '>') then
          match rest with
          | '=' :: more =>
            if c = '!' ∨ c = '=' ∨ c = '<' ∨ c = '>' then source fuel brackets none ('=' :: c :: acc) more
            else some (acc, s)
          | _ => if c = '<' ∨ c = '>' then source fuel brackets none (c :: acc) rest else some (acc, s)
        else if c = ')' ∨ c = ']' ∨ c = '}' then
          match brackets with
          | o :: open_ => if Lexer.closing o = c then source fuel open_ none (c :: acc) rest else none
          | [] => none
        else source fuel brackets none (c :: acc) rest

def isPad (c : Char) : Bool := c == ' ' || c == '\t' || c == '\n' || c == '\x0c'

variable (g : Grammar)

def compile (line : Nat) (text : Chars) : Option Node := do
  if text.all isPad then none
  let tokens ← Lexer.tokensFrom line ('(' :: (text ++ [')']))
  let (value, _) ← g.starExpressions (.ofTokens tokens line)
  return value

def finish (raw : Bool) (depth line : Nat) (s : Chars) : Option (List Node × Chars × Nat) := do
  let (line, s) := match s with
    | '=' :: rest =>
      let pad := rest.takeWhile fun c => isPad c || c == '\x0b'
      (line + pad.count '\n', rest.drop pad.length)
    | _ => (line, s)
  let s ← match s with
    | '!' :: c :: rest => if c = 's' ∨ c = 'r' ∨ c = 'a' then some rest else none
    | '!' :: [] => none
    | _ => some s
  let (spec, rest, line) ← match s with
    | ':' :: rest => if rest.isEmpty then none else g.formatParts raw (depth + 1) line rest
    | _ => some ([], s, line)
  match rest with
  | '}' :: after => return (spec, after, line)
  | _ => none

def parts (raw : Bool) (depth line : Nat) (s : Chars) : Option (List Node × Chars × Nat) :=
  go (s.length + 1) line s
where
  go : Nat → Nat → Chars → Option (List Node × Chars × Nat)
    | 0, _, _ => none
    | fuel + 1, line, s => do
      let (text, stop, rest) ← literal raw depth (s.length + 1) [] s
      let _ ← Literal.decode raw text.reverse
      let line := line + (s.take (s.length - rest.length)).count '\n'
      match stop with
      | .doubled => go fuel line rest
      | .brace =>
        match rest with
        | '{' :: inner =>
          if 2 ≤ depth then none
          let (text, after) ← source (inner.length + 1) [] none [] inner
          let value ← compile g line text.reverse
          let afterLine := line + text.count '\n'
          let (spec, rest, nextLine) ← finish g raw depth afterLine after
          let format := if spec.isEmpty then [] else [Node.mk .joinedStr value.span (Reader.under .values spec)]
          let part := Node.mk .formattedValue value.span ((.value, value) :: Reader.under .other format)
          let (more, rest, line) ← go fuel nextLine rest
          return (part :: more, rest, line)
        | _ => return ([], rest, line)

end CodeAudit.Syntax.Formatted

/-! Reads a Python module. `parse?` gives the program that a source text is, or nothing when the
text is no valid module. -/

namespace CodeAudit.Syntax

def Grammar.above (g : Grammar) : Grammar where
  expression := Expression.expression g
  namedExpression := Expression.namedExpression g
  disjunction := Expression.disjunction g
  inversion := Expression.inversion g
  bitwiseOr := Expression.bitwiseOr g
  factor := Expression.factor g
  primary := Expression.primary g
  starExpressions := Expression.starExpressions g
  target := Expression.target g
  statement := Statement.statement g
  pattern := Pattern.pattern g
  formatParts := Formatted.parts g

def Grammar.level : Nat → Grammar
  | 0 => .bottom
  | n + 1 => (Grammar.level n).above

def moduleStatements (g : Grammar) : Reader (List Node) := do
  let body ← Reader.many (Statement.statement g)
  Reader.expect .stop
  return body.flatten

def parseChars? (s : Chars) : Option Program := do
  let tokens ← Lexer.tokensFrom 1 s
  let (body, _) ← moduleStatements (Grammar.level (s.length + 2)) (.ofTokens tokens 1)
  Program.ofTree? (.mk .module ⟨1, 1⟩ (Reader.under .body body))

def parse? (source : String) : Option Program := parseChars? source.toList

theorem parse?_ofList (s : Chars) : parse? (String.ofList s) = parseChars? s := by
  rw [parse?, String.toList_ofList]

/-! What runs a program that reads others. It parses their texts, gives up on some that are nested
too deeply for it, and lets only so many calls be open at once. -/

structure Interpreter where
  parse? : String → Option Program
  refusal : String → Program → Option Fault
  maxCalls : Nat
  refusal_ne : ∀ source p, refusal source p ≠ some .badProgram

def Interpreter.read (i : Interpreter) (source : String) : Outcome Program :=
  match i.parse? source with
  | none => .error .badProgram
  | some p =>
    match i.refusal source p with
    | some f => .error f
    | none => .ok p

def Interpreter.standard : Interpreter where
  parse? := Syntax.parse?
  refusal _ p :=
    if 2960 < p.tree.height then
      some (.tooDeep "maximum recursion depth exceeded during ast construction")
    else none
  maxCalls := 1000
  refusal_ne _ p := by
    by_cases h : 2960 < p.tree.height
    · simp [h]
    · simp [h]

/-! Walks down syntax trees. -/

structure Walk where
  before : Nat
  calls : Kind → Nat
  mark : Nat
  listing : Nat
  enters : Kind → Field → Bool := fun _ _ => true

def Kind.isMarked : Kind → Bool
  | .name _ _ | .attribute _ _ | .subscript _ | .starred _ | .list _ | .tuple _ | .binOp | .unaryOp | .boolOp
  | .compare | .augAssign => true
  | _ => false

namespace Walk

mutual

def reach (w : Walk) : Node → Nat
  | .mk kind _ children =>
    let own := if kind.isMarked then max w.listing w.mark else w.listing
    w.calls kind + max own (w.reachOfFields kind children)

def reachOfFields (w : Walk) (parent : Kind) : List (Field × Node) → Nat
  | [] => 0
  | (field, child) :: rest =>
    let others := w.reachOfFields parent rest
    if w.enters parent field then max (w.reach child) others else others

end

def check (w : Walk) (i : Interpreter) (n : Node) : Outcome Unit :=
  if i.maxCalls < w.before + w.reach n then
    .error (.tooDeep "maximum recursion depth exceeded")
  else .ok ()

end Walk

end CodeAudit.Syntax

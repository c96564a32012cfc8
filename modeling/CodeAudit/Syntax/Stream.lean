import CodeAudit.Syntax.Lexer
import CodeAudit.Syntax.Tree

/-! Reading tokens one after another. The readers that call each other form a level of the grammar,
built from the level below it; as many levels as the source has characters suffice. -/

namespace CodeAudit.Syntax

structure Stream where
  ahead : List Token
  lastLine : Nat
  bound : Nat

def Stream.ofTokens (tokens : List Token) (line : Nat) : Stream := ⟨tokens, line, tokens.length⟩

abbrev Reader := StateT Stream Option

namespace Reader

def peek : Reader TokenKind := do
  return ((← get).ahead.head?.map (·.kind)).getD .stop

def peekSecond : Reader TokenKind := do
  return (((← get).ahead.drop 1).head?.map (·.kind)).getD .stop

def here : Reader Nat := do
  let st ← get
  return (st.ahead.head?.map (·.line)).getD st.lastLine

def advance : Reader Unit := do
  let st ← get
  match st.ahead with
  | [] => failure
  | t :: rest =>
    let lastLine := match t.kind with
      | .newline | .indent | .dedent | .stop => st.lastLine
      | _ => t.endLine
    set (Stream.mk rest lastLine (st.bound - 1))

def expect (kind : TokenKind) : Reader Unit := do
  if (← peek) = kind then advance else failure

variable (s : String)

def atOp : Reader Bool := return (← peek) = .op s

def atWord : Reader Bool := return (← peek) = .name s

def op (s : String) : Reader Unit := expect (.op s)

def word : Reader Unit := expect (.name s)

def tryOp : Reader Bool := do
  if ← atOp s then advance; return true else return false

def tryOpWhen (wanted : Bool) (s : String) : Reader Bool := if wanted then tryOp s else return false

def tryWord : Reader Bool := do
  if ← atWord s then advance; return true else return false

def identifier : Reader String := do
  match ← peek with
  | .name s => if keywords.contains s then failure else advance; return s
  | _ => failure

def node (start : Nat) (kind : Kind) (children : List (Field × Node)) : Reader Node := do
  return .mk kind ⟨start, (← get).lastLine⟩ children

def upTo {α : Type} (p : Reader α) : Nat → Reader (List α)
  | 0 => return []
  | n + 1 => fun st =>
    match p st with
    | none => some ([], st)
    | some (a, st') =>
      match upTo p n st' with
      | none => some ([a], st')
      | some (as, st'') => some (a :: as, st'')

variable {α : Type} (p : Reader α)

def many : Reader (List α) := do
  upTo p ((← get).bound + 1)

def extend {α : Type} (p : α → Reader (Option α)) : Nat → α → Reader α
  | 0, a => return a
  | n + 1, a => do
    match ← p a with
    | some b => extend p n b
    | none => return a

def grow (a : α) (p : α → Reader (Option α)) : Reader α := do
  extend p ((← get).bound + 1) a

def commaItems : Reader (List α) := many (do op ","; p)

def under (field : Field) (nodes : List Node) : List (Field × Node) := nodes.map (field, ·)

end Reader

structure Grammar where
  expression : Reader Node
  namedExpression : Reader Node
  disjunction : Reader Node
  inversion : Reader Node
  bitwiseOr : Reader Node
  factor : Reader Node
  primary : Reader Node
  starExpressions : Reader Node
  target : Reader Node
  statement : Reader (List Node)
  pattern : Reader Node
  /-- The parts of a formatted string's body from a line on, at a depth of nested formats, up to the
  end or a closing brace; gives the rest. -/
  formatParts : Bool → Nat → Nat → Chars → Option (List Node × Chars × Nat)

def Grammar.bottom : Grammar where
  expression := failure
  namedExpression := failure
  disjunction := failure
  inversion := failure
  bitwiseOr := failure
  factor := failure
  primary := failure
  starExpressions := failure
  target := failure
  statement := failure
  pattern := failure
  formatParts := fun _ _ _ _ => none

namespace Node

mutual

/-- The place that an expression names, used in the given way; nothing when it names none. Stars are
allowed inside lists where `stars` says so. -/
def asTarget (usage : Usage) (stars : Bool) : Node → Option Node
  | .mk kind span children =>
    match kind with
    | .name id _ => some (.mk (.name id usage) span children)
    | .attribute name _ => some (.mk (.attribute name usage) span children)
    | .subscript _ => some (.mk (.subscript usage) span children)
    | .starred _ =>
      if stars then (asTargets usage stars children).map (.mk (.starred usage) span) else none
    | .list _ => (asTargets usage stars children).map (.mk (.list usage) span)
    | .tuple _ => (asTargets usage stars children).map (.mk (.tuple usage) span)
    | _ => none

def asTargets (usage : Usage) (stars : Bool) : List (Field × Node) → Option (List (Field × Node))
  | [] => some []
  | (f, child) :: rest =>
    match asTarget usage stars child, asTargets usage stars rest with
    | some child, some rest => some ((f, child) :: rest)
    | _, _ => none

end

def asSingleTarget (n : Node) : Option Node :=
  match n.kind with
  | .name _ _ | .attribute _ _ | .subscript _ => asTarget .store false n
  | _ => none

end Node

end CodeAudit.Syntax

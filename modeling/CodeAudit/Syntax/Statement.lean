import CodeAudit.Syntax.Expression

/-! Readers of the patterns of `case` clauses. -/

namespace CodeAudit.Syntax.Pattern

open Reader Expression

def numberLiteral : Reader Node := do
  let start ← here
  let _ ← tryOp "-"
  match ← peek with
  | .number imaginary =>
    advance
    match ← peek with
    | .op "+" | .op "-" =>
      if imaginary then failure
      advance
      match ← peek with
      | .number true => advance; node start .binOp []
      | _ => failure
    | _ => node start (.constant .number) []
  | _ => failure

def dotted (start : Nat) (first : String) : Reader Node := do
  let base ← node start (.name first .load) []
  grow base fun value => do
    if ← tryOp "." then
      let name ← identifier
      return some (← node start (.attribute name .load) [(.value, value)])
    else return none

def captureName : Reader String := do
  let name ← identifier
  if name = "_" then failure
  match ← peek with
  | .op "." | .op "(" | .op "=" => failure
  | _ => return name

variable (g : Grammar)

def constantPattern : Reader Node := do
  let start ← here
  match ← peek with
  | .name "None" | .name "True" | .name "False" => advance; node start .matchSingleton []
  | .string _ _ =>
    let value ← strings g
    node start .matchValue [(.value, value)]
  | _ =>
    let value ← numberLiteral
    node start .matchValue [(.value, value)]

def sequenceItem : Reader Node := do
  let start ← here
  if ← tryOp "*" then
    let name ← identifier
    match ← peek with
    | .op "." | .op "(" | .op "=" => failure
    | _ => node start (.matchStar (if name = "_" then none else some name)) []
  else g.pattern

def mappingKey : Reader Node := do
  let start ← here
  match ← peek with
  | .name "None" => advance; node start (.constant .none) []
  | .name "True" => advance; node start (.constant (.bool true)) []
  | .name "False" => advance; node start (.constant (.bool false)) []
  | .string _ _ => strings g
  | .name _ =>
    let name ← identifier
    let value ← dotted start name
    match value.kind with
    | .attribute _ _ => return value
    | _ => failure
  | _ => numberLiteral

def mapping (start : Nat) : Reader Node := do
  let entry : Reader (Node × Node) := do
    let key ← mappingKey g
    op ":"
    return (key, ← g.pattern)
  let rest : Reader String := do op "**"; captureName
  let close := fun (entries : List (Node × Node)) (name : Option String) => do
    let _ ← tryOp ","
    op "\x7d"
    node start (.matchMapping name)
      (under .keys (entries.map (·.1)) ++ under .values (entries.map (·.2)))
  if ← tryOp "\x7d" then node start (.matchMapping none) []
  else if ← atOp "**" then close [] (some (← rest))
  else
    let first ← entry
    let more ← commaItems entry
    let name ← (do op ","; some <$> rest) <|> pure none
    close (first :: more) name

def classArguments : Reader (List Node × List Node) := do
  op "("
  if ← tryOp ")" then return ([], [])
  let item := fun (plain named : List Node) => do
    match ← peek, ← peekSecond with
    | .name _, .op "=" =>
      let _ ← identifier
      op "="
      return (plain, (← g.pattern) :: named)
    | _, _ => if named.isEmpty then return ((← g.pattern) :: plain, named) else failure
  let first ← item [] []
  let (plain, named) ← grow first fun (plain, named) => do
    if (← atOp ",") && (← peekSecond) ≠ .op ")" then
      op ","
      return some (← item plain named)
    else return none
  let _ ← tryOp ","
  op ")"
  return (plain.reverse, named.reverse)

def namePattern : Reader Node := do
  let start ← here
  let name ← identifier
  let value ← dotted start name
  if ← atOp "(" then
    let (plain, named) ← classArguments g
    node start .matchClass ((.func, value) :: (under .values plain ++ under .keywords named))
  else if ← atOp "=" then failure
  else match value.kind with
    | .attribute _ _ => node start .matchValue [(.value, value)]
    | _ => node start (.matchAs (if name = "_" then none else some name)) []

def groupPattern (close : String) (sequence : Bool) : Reader Node := do
  let start ← here
  advance
  if ← tryOp close then node start .matchSequence []
  else
    let isStar ← atOp "*"
    let first ← sequenceItem g
    if ← atOp "," then
      let rest ← commaItems (sequenceItem g)
      let _ ← tryOp ","
      op close
      node start .matchSequence (under .elements (first :: rest))
    else
      op close
      if sequence then node start .matchSequence [(.elements, first)]
      else if isStar then failure
      else return first

def closed : Reader Node := do
  match ← peek with
  | .op "(" => groupPattern g ")" false
  | .op "[" => groupPattern g "]" true
  | .op "\x7b" =>
    let start ← here
    advance
    mapping g start
  | .name "None" | .name "True" | .name "False" => constantPattern g
  | .name _ => namePattern g
  | _ => constantPattern g

def pattern : Reader Node := do
  let start ← here
  let first ← closed g
  let rest ← many (do op "|"; closed g)
  let value ← if rest.isEmpty then pure first
    else node start .matchOr (under .values (first :: rest))
  if ← tryWord "as" then
    let name ← captureName
    node start (.matchAs (some name)) [(.value, value)]
  else return value

def patterns : Reader Node := do
  let start ← here
  let isStar ← atOp "*"
  let first ← sequenceItem g
  if ← atOp "," then
    let rest ← commaItems (sequenceItem g)
    let _ ← tryOp ","
    node start .matchSequence (under .elements (first :: rest))
  else if isStar then failure
  else return first

end CodeAudit.Syntax.Pattern

/-! Readers of statements, simple ones on a line and compound ones with blocks. -/

namespace CodeAudit.Syntax.Statement

open Reader Expression

def atEnd : Reader Bool := do
  return (← peek) = .newline || (← atOp ";")

variable (g : Grammar)

def assigned : Reader Node := do
  if ← atWord "yield" then yieldExpression g else starExpressions g

def updateSigns : List String := ["+=", "-=", "*=", "@=", "/=", "%=", "&=", "|=", "^=", "<<=", ">>=", "**=", "//="]

def assignmentChain (first : Node) : Reader (List Node × Node) := do
  grow ([], first) fun (targets, value) => do
    if ← atOp "=" then
      let target ← lift (value.asTarget .store true)
      advance
      return some (target :: targets, ← assigned g)
    else return none

def expressionStatement : Reader Node := do
  let start ← here
  let first ← assigned g
  match ← peek with
  | .op ":" =>
    let target ← lift first.asSingleTarget
    advance
    let typeHint ← expression g
    let value ← if ← tryOp "=" then some <$> assigned g else pure none
    node start .annAssign
      ([(.target, target), (.typeHint, typeHint)] ++ under .value value.toList)
  | .op "=" =>
    let (targets, value) ← assignmentChain g first
    node start .assign (under .targets targets.reverse ++ [(.value, value)])
  | .op o =>
    if updateSigns.contains o then
      let target ← lift first.asSingleTarget
      advance
      let value ← assigned g
      node start .augAssign [(.target, target), (.value, value)]
    else node start .exprStmt [(.value, first)]
  | _ => node start .exprStmt [(.value, first)]

def dottedName : Reader String := do
  let first ← identifier
  let rest ← many (do op "."; identifier)
  return String.intercalate "." (first :: rest)

def importAlias (name : Reader String) : Reader Node := do
  let start ← here
  let name ← name
  let asname ← if ← tryWord "as" then some <$> identifier else pure none
  node start (.alias name asname) []

def importStatement : Reader Node := do
  let start ← here
  word "import"
  let first ← importAlias dottedName
  let rest ← commaItems (importAlias dottedName)
  node start .importStmt (under .names (first :: rest))

def relativeLevel : Reader Nat := do
  let dots ← many (do
    match ← peek with
    | .op "." => advance; return 1
    | .op "..." => advance; return 3
    | _ => failure)
  return sumOf dots

def importTargets : Reader (List Node) := do
  let start ← here
  if ← tryOp "*" then return [← node start (.alias "*" none) []]
  else
    let bracketed ← tryOp "("
    let first ← importAlias identifier
    let rest ← commaItems (importAlias identifier)
    if bracketed then
      let _ ← tryOp ","
      op ")"
    else if ← atOp "," then failure
    return first :: rest

def importFromStatement : Reader Node := do
  let start ← here
  word "from"
  let level ← relativeLevel
  let source ← if level ≠ 0 && (← atWord "import") then pure none else some <$> dottedName
  word "import"
  let names ← importTargets
  node start (.importFrom source level) (under .names names)

def deleteStatement : Reader Node := do
  let start ← here
  word "del"
  let place : Reader Node := do lift ((← primary g).asTarget .del false)
  let first ← place
  let rest ← commaItems place
  let _ ← tryOp ","
  if ← atEnd then node start .deleteStmt (under .targets (first :: rest)) else failure

def declaredNames : Reader (List String) := do
  let first ← identifier
  let rest ← commaItems identifier
  return first :: rest

def simple : Reader Node := do
  let start ← here
  match ← peek with
  | .name "return" =>
    advance
    let value ← if ← atEnd then pure none else some <$> starExpressions g
    node start .returnStmt (under .value value.toList)
  | .name "import" => importStatement
  | .name "from" => importFromStatement
  | .name "raise" =>
    advance
    if ← atEnd then node start .raiseStmt []
    else
      let exception ← expression g
      let cause ← if ← tryWord "from" then some <$> expression g else pure none
      node start .raiseStmt ((.value, exception) :: under .other cause.toList)
  | .name "pass" => advance; node start .passStmt []
  | .name "break" => advance; node start .breakStmt []
  | .name "continue" => advance; node start .continueStmt []
  | .name "del" => deleteStatement g
  | .name "assert" =>
    advance
    let test ← expression g
    let message ← if ← tryOp "," then some <$> expression g else pure none
    node start .assertStmt ((.test, test) :: under .other message.toList)
  | .name "global" =>
    advance
    let names ← declaredNames
    node start (.globalStmt names) []
  | .name "nonlocal" =>
    advance
    let names ← declaredNames
    node start (.nonlocalStmt names) []
  | _ => expressionStatement g

def simpleLine : Reader (List Node) := do
  let first ← simple g
  let rest ← many (do op ";"; simple g)
  let _ ← tryOp ";"
  expect .newline
  return first :: rest

def block : Reader (List Node) := do
  op ":"
  if (← peek) = .newline then
    advance
    expect .indent
    let first ← g.statement
    let rest ← many g.statement
    expect .dedent
    return first ++ rest.flatten
  else simpleLine g

def elseBlock : Reader (List Node) := do
  if ← tryWord "else" then block g else return []

def ifStatement (g : Grammar) (opening : String) : Nat → Reader Node
  | 0 => failure
  | fuel + 1 => do
    let start ← here
    word opening
    let test ← namedExpression g
    let body ← block g
    let other ← if ← atWord "elif" then (fun n => [n]) <$> ifStatement g "elif" fuel else elseBlock g
    node start .ifStmt ((.test, test) :: (under .body body ++ under .orelse other))

def whileStatement : Reader Node := do
  let start ← here
  word "while"
  let test ← namedExpression g
  let body ← block g
  let other ← elseBlock g
  node start .whileLoop ((.test, test) :: (under .body body ++ under .orelse other))

variable (start : Nat) (kind : Kind)

def forStatement : Reader Node := do
  word "for"
  let target ← targetList g
  word "in"
  let iter ← starExpressions g
  let body ← block g
  let other ← elseBlock g
  node start kind ([(.target, target), (.iter, iter)] ++ under .body body ++ under .orelse other)

def withItem (g : Grammar) : Reader Node := do
  let start ← here
  let manager ← expression g
  let place ← (do
    word "as"
    let place ← target g
    match ← peek with
    | .op "," | .op ")" | .op ":" => return some place
    | _ => failure) <|> pure none
  node start .withItem ((.value, manager) :: under .target place.toList)

def withStatement : Reader Node := do
  word "with"
  let bracketed : Reader (List Node) := do
    op "("
    let first ← withItem g
    let rest ← commaItems (withItem g)
    let _ ← tryOp ","
    op ")"
    if ← atOp ":" then return first :: rest else failure
  let bare : Reader (List Node) := do
    let first ← withItem g
    let rest ← commaItems (withItem g)
    return first :: rest
  let items ← bracketed <|> bare
  let body ← block g
  node start kind (under .items items ++ under .body body)

def exceptClause (star : Bool) : Reader Node := do
  let start ← here
  word "except"
  if star then op "*"
  if !star && (← atOp ":") then
    let body ← block g
    node start (.exceptHandler none) (under .body body)
  else
    let caught ← expression g
    let name ← if ← tryWord "as" then some <$> identifier else pure none
    let body ← block g
    node start (.exceptHandler name) ((.other, caught) :: under .body body)

def tryStatement : Reader Node := do
  let start ← here
  word "try"
  let body ← block g
  let finalBlock : Reader (List Node) := do
    if ← tryWord "finally" then block g else return []
  if ← atWord "finally" then
    let final ← finalBlock
    node start .tryStmt (under .body body ++ under .finalbody final)
  else
    let star := (← peekSecond) = .op "*"
    let first ← exceptClause g star
    let rest ← many (exceptClause g star)
    let other ← elseBlock g
    let final ← finalBlock
    node start (if star then .tryStar else .tryStmt)
      (under .body body ++ under .handlers (first :: rest) ++ under .orelse other ++
        under .finalbody final)

def functionStatement (isAsync : Bool) (decorators : List Node) : Reader Node := do
  word "def"
  let name ← identifier
  op "("
  let args ← parameters g true ")"
  op ")"
  let returns ← if ← tryOp "->" then some <$> expression g else pure none
  let body ← block g
  node start (if isAsync then .asyncFunctionDef name else .functionDef name)
    ((.args, args) :: (under .body body ++ under .decorators decorators ++ under .returns returns.toList))

def classStatement (decorators : List Node) : Reader Node := do
  let start ← here
  word "class"
  let name ← identifier
  let (bases, named) ← if ← atOp "(" then callArguments g false else pure ([], [])
  let body ← block g
  node start (.classDef name)
    (under .bases bases ++ under .keywords named ++ under .body body ++ under .decorators decorators)

def decorated : Reader Node := do
  let decorators ← many (do
    op "@"
    let value ← namedExpression g
    expect .newline
    return value)
  let start ← here
  if ← atWord "class" then classStatement g decorators
  else
    let isAsync ← tryWord "async"
    functionStatement g start isAsync decorators

def caseClause : Reader Node := do
  let start ← here
  word "case"
  let shape ← Pattern.patterns g
  let guard ← if ← tryWord "if" then some <$> namedExpression g else pure none
  let body ← block g
  node start .matchCase ((.target, shape) :: (under .test guard.toList ++ under .body body))

def matchStatement : Reader Node := do
  let start ← here
  word "match"
  let subjectStart ← here
  let isStar ← atOp "*"
  let first ← starNamed g
  let subject ← if ← atOp "," then do
      let rest ← commaItems (starNamed g)
      let _ ← tryOp ","
      node subjectStart (.tuple .load) (under .elements (first :: rest))
    else if isStar then failure
    else pure first
  op ":"
  expect .newline
  expect .indent
  let firstCase ← caseClause g
  let rest ← many (caseClause g)
  expect .dedent
  node start .matchStmt ((.value, subject) :: under .items (firstCase :: rest))

def statement : Reader (List Node) := do
  let start ← here
  let one := fun (r : Reader Node) => (fun n => [n]) <$> r
  match ← peek with
  | .name "def" => one (functionStatement g start false [])
  | .name "class" => one (classStatement g [])
  | .op "@" => one (decorated g)
  | .name "if" => one (ifStatement g "if" ((← get).bound + 1))
  | .name "while" => one (whileStatement g)
  | .name "for" => one (forStatement g start .forLoop)
  | .name "with" => one (withStatement g start .withStmt)
  | .name "try" => one (tryStatement g)
  | .name "async" =>
    advance
    match ← peek with
    | .name "def" => one (functionStatement g start true [])
    | .name "for" => one (forStatement g start .asyncFor)
    | .name "with" => one (withStatement g start .asyncWith)
    | _ => failure
  | .name "match" => one (matchStatement g) <|> simpleLine g
  | _ => simpleLine g

end CodeAudit.Syntax.Statement

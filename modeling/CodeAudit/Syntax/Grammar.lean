import CodeAudit.Syntax.Lexer
import CodeAudit.Syntax.Tree

/-! The grammar of syntax trees: which nodes may stand below which, and in which roles. A program is
a tree that follows it. -/

namespace CodeAudit.Syntax

inductive Category where
  | module | statement | expression | comprehension | handler | arguments | argument | keyword | alias
  | withItem | matchCase | pattern
deriving DecidableEq

def Kind.category : Kind → Category
  | .module => .module
  | .functionDef _ | .asyncFunctionDef _ | .classDef _ | .returnStmt | .deleteStmt | .assign | .augAssign | .annAssign
  | .forLoop | .asyncFor | .whileLoop | .ifStmt | .withStmt | .asyncWith | .matchStmt | .raiseStmt | .tryStmt | .tryStar
  | .assertStmt | .importStmt | .importFrom _ _ | .globalStmt _ | .nonlocalStmt _ | .exprStmt | .passStmt | .breakStmt
  | .continueStmt => .statement
  | .boolOp | .namedExpr | .binOp | .unaryOp | .lambda | .ifExp | .dict | .set | .listComp | .setComp | .dictComp
  | .generatorExp | .await | .yield | .yieldFrom | .compare | .call | .formattedValue | .joinedStr | .constant _
  | .attribute _ _ | .subscript _ | .starred _ | .name _ _ | .list _ | .tuple _ | .slice => .expression
  | .comprehension => .comprehension
  | .exceptHandler _ => .handler
  | .arguments => .arguments
  | .arg _ => .argument
  | .keyword _ => .keyword
  | .alias _ _ => .alias
  | .withItem => .withItem
  | .matchCase => .matchCase
  | .matchValue | .matchSingleton | .matchSequence | .matchMapping _ | .matchClass | .matchStar _ | .matchAs _
  | .matchOr => .pattern

def Kind.roles : Kind → List (Field × Category)
  | .module => [(.body, .statement)]
  | .functionDef _ | .asyncFunctionDef _ =>
    [(.args, .arguments), (.body, .statement), (.decorators, .expression), (.returns, .expression)]
  | .classDef _ => [(.bases, .expression), (.keywords, .keyword), (.body, .statement), (.decorators, .expression)]
  | .assign => [(.targets, .expression), (.value, .expression)]
  | .annAssign => [(.target, .expression), (.typeHint, .expression), (.value, .expression)]
  | .forLoop | .asyncFor => [(.target, .expression), (.iter, .expression), (.body, .statement), (.orelse, .statement)]
  | .whileLoop | .ifStmt => [(.test, .expression), (.body, .statement), (.orelse, .statement)]
  | .withStmt | .asyncWith => [(.items, .withItem), (.body, .statement)]
  | .matchStmt => [(.value, .expression), (.items, .matchCase)]
  | .tryStmt | .tryStar =>
    [(.body, .statement), (.handlers, .handler), (.orelse, .statement), (.finalbody, .statement)]
  | .assertStmt => [(.test, .expression), (.other, .expression)]
  | .importStmt | .importFrom _ _ => [(.names, .alias)]
  | .deleteStmt => [(.targets, .expression)]
  | .globalStmt _ | .nonlocalStmt _ | .passStmt | .breakStmt | .continueStmt | .constant _ | .name _ _ | .alias _ _
  | .matchSingleton | .matchStar _ => []
  | .augAssign | .namedExpr | .withItem => [(.target, .expression), (.value, .expression)]
  | .returnStmt | .exprStmt | .await | .yield | .yieldFrom | .attribute _ _ | .starred _ | .keyword _
  | .matchValue => [(.value, .expression)]
  | .raiseStmt | .formattedValue | .subscript _ => [(.value, .expression), (.other, .expression)]
  | .binOp | .unaryOp | .compare => [(.operand, .expression)]
  | .boolOp | .joinedStr => [(.values, .expression)]
  | .set | .list _ | .tuple _ => [(.elements, .expression)]
  | .lambda => [(.args, .arguments), (.body, .expression)]
  | .ifExp => [(.test, .expression), (.body, .expression), (.orelse, .expression)]
  | .dict => [(.keys, .expression), (.values, .expression)]
  | .listComp | .setComp | .generatorExp => [(.elements, .expression), (.values, .comprehension)]
  | .dictComp => [(.keys, .expression), (.values, .expression), (.values, .comprehension)]
  | .call => [(.func, .expression), (.args, .expression), (.keywords, .keyword)]
  | .slice => [(.other, .expression)]
  | .comprehension => [(.target, .expression), (.iter, .expression), (.ifs, .expression)]
  | .exceptHandler _ => [(.other, .expression), (.body, .statement)]
  | .arguments => [(.posonly, .argument), (.args, .argument), (.vararg, .argument), (.kwonly, .argument),
    (.kwarg, .argument), (.defaults, .expression)]
  | .arg _ => [(.typeHint, .expression)]
  | .matchCase => [(.target, .pattern), (.test, .expression), (.body, .statement)]
  | .matchSequence => [(.elements, .pattern)]
  | .matchMapping _ => [(.keys, .expression), (.values, .pattern)]
  | .matchClass => [(.func, .expression), (.values, .pattern), (.keywords, .pattern)]
  | .matchAs _ => [(.value, .pattern)]
  | .matchOr => [(.values, .pattern)]

def isWord (s : String) : Bool := s.toList.all Lexer.mayContinue

/-- What a node has to have: a function its parameters, before all else, a class a name, an import
something to import, and a name a word. -/
def Kind.isProvided : Kind → List (Field × Node) → Bool
  | .functionDef _, children => children.head?.any fun e => e.1 = .args && e.2.kind.category = .arguments
  | .classDef title, _ => title != ""
  | .importStmt, children | .importFrom _ _, children => !children.isEmpty
  | .name id _, _ => isWord id
  | _, _ => true

mutual

/-- Every node of the tree has only children that its kind allows in their roles, and has what it
needs. -/
def Node.follows : Node → Bool
  | .mk kind _ children => kind.isProvided children && followFields kind children

def Node.followFields (parent : Kind) : List (Field × Node) → Bool
  | [] => true
  | (field, child) :: rest =>
    parent.roles.contains (field, child.kind.category) && child.follows && followFields parent rest

end

structure Program where
  tree : Node
  isModule : tree.kind = .module
  follows : tree.follows = true

def Program.ofTree? (tree : Node) : Option Program :=
  if h : tree.kind = .module ∧ tree.follows = true then some ⟨tree, h.1, h.2⟩ else none

end CodeAudit.Syntax

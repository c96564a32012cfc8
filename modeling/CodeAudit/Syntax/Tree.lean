/-! Syntax trees of Python modules: nodes with a kind, lines, and children in the order of their
fields. `walk` lists a tree level by level, `preorder` parents before children. -/

namespace CodeAudit.Syntax

inductive Usage where
  | load | store | del
deriving DecidableEq, Inhabited

inductive Constant where
  | none
  | bool (b : Bool)
  | number
  | text (s : String)
  | bytes
  | ellipsis
deriving DecidableEq

inductive Kind where
  | module
  | functionDef (name : String)
  | asyncFunctionDef (name : String)
  | classDef (name : String)
  | returnStmt
  | deleteStmt
  | assign
  | augAssign
  | annAssign
  | forLoop
  | asyncFor
  | whileLoop
  | ifStmt
  | withStmt
  | asyncWith
  | matchStmt
  | raiseStmt
  | tryStmt
  | tryStar
  | assertStmt
  | importStmt
  | importFrom (source : Option String) (level : Nat)
  | globalStmt (names : List String)
  | nonlocalStmt (names : List String)
  | exprStmt
  | passStmt
  | breakStmt
  | continueStmt
  | boolOp
  | namedExpr
  | binOp
  | unaryOp
  | lambda
  | ifExp
  | dict
  | set
  | listComp
  | setComp
  | dictComp
  | generatorExp
  | await
  | yield
  | yieldFrom
  | compare
  | call
  | formattedValue
  | joinedStr
  | constant (value : Constant)
  | attribute (name : String) (usage : Usage)
  | subscript (usage : Usage)
  | starred (usage : Usage)
  | name (id : String) (usage : Usage)
  | list (usage : Usage)
  | tuple (usage : Usage)
  | slice
  | comprehension
  | exceptHandler (name : Option String)
  | arguments
  | arg (name : String)
  | keyword (name : Option String)
  | alias (name : String) (asname : Option String)
  | withItem
  | matchCase
  | matchValue
  | matchSingleton
  | matchSequence
  | matchMapping (rest : Option String)
  | matchClass
  | matchStar (name : Option String)
  | matchAs (name : Option String)
  | matchOr
deriving DecidableEq, Inhabited

inductive Field where
  | body | orelse | finalbody | handlers | decorators | returns | args | posonly | vararg | kwonly | kwarg
  | defaults | bases | keywords | targets | target | value | values | typeHint | iter | test | items | names
  | func | elements | keys | ifs | operand | other
deriving DecidableEq

structure Span where
  line : Nat
  endLine : Nat
deriving DecidableEq, Inhabited

inductive Node where
  | mk (kind : Kind) (span : Span) (children : List (Field × Node))
deriving Inhabited

namespace Node

def kind : Node → Kind
  | .mk kind _ _ => kind

def span : Node → Span
  | .mk _ span _ => span

def fields : Node → List (Field × Node)
  | .mk _ _ children => children

variable (n : Node)

def children : List Node := n.fields.map (·.2)

def childrenIn (field : Field) : List Node :=
  n.fields.filterMap fun (f, child) => if f = field then some child else none

def childIn? (field : Field) : Option Node := (n.childrenIn field).head?

def line (n : Node) : Nat := n.span.line

def endLine (n : Node) : Nat := n.span.endLine

mutual

def height : Node → Nat
  | .mk _ _ children => heightOfFields children + 1

def heightOfFields : List (Field × Node) → Nat
  | [] => 0
  | (_, child) :: rest => max (height child) (heightOfFields rest)

end

def levels : Nat → List Node → List Node
  | 0, _ => []
  | depth + 1, forest => forest ++ levels depth (forest.flatMap children)

def walk : List Node := levels n.height [n]

mutual

def preorder : Node → List Node
  | .mk kind span children => .mk kind span children :: preorderFields children

def preorderFields : List (Field × Node) → List Node
  | [] => []
  | (_, child) :: rest => preorder child ++ preorderFields rest

end

def textConstant? : Option String :=
  match n.kind with
  | .constant (.text s) => some s
  | _ => none

def docstring? : Option String :=
  match (n.childrenIn .body).head? with
  | some first =>
    match first.kind with
    | .exprStmt => first.children.head?.bind textConstant?
    | _ => none
  | none => none

end Node

end CodeAudit.Syntax

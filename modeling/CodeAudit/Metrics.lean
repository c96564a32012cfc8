import CodeAudit.Syntax.Parser

/-! Measures of functions and classes. Counts run over all nodes of a definition; nesting counts
`if`, `while`, `for` and `try` inside one another. -/

namespace CodeAudit.Metrics

open Syntax

/-! Documentation strings without the indentation of the code around them. -/

def expandTabs : Nat → Chars → Chars
  | _, [] => []
  | column, '\t' :: rest =>
    let width := 8 - column % 8
    List.replicate width ' ' ++ expandTabs (column + width) rest
  | column, c :: rest => c :: expandTabs (if c = '\n' ∨ c = '\r' then 0 else column + 1) rest

def commonMargin (lines : List Chars) : Option Nat :=
  (lines.filterMap fun line =>
    let content := (line.dropWhile isBlank).length
    if content = 0 then none else some (line.length - content)).min?

def dropEmpty (lines : List Chars) : List Chars := lines.dropWhile (·.isEmpty)

def cleanDoc (doc : String) : String :=
  match Chars.splitOn '\n' (expandTabs 0 doc.toList) with
  | [] => ""
  | first :: rest =>
    let margin := (commonMargin rest).getD 0
    let lines := first.dropWhile isBlank :: rest.map (·.drop margin)
    let lines := dropEmpty (dropEmpty lines.reverse).reverse
    String.ofList (List.intercalate ['\n'] lines)

/-! Measures. -/

variable (n : Node)

def branchWeight : Nat :=
  match n.kind with
  | .ifStmt | .whileLoop | .forLoop | .tryStmt | .exceptHandler _ | .withStmt | .assertStmt
  | .raiseStmt => 1
  | .boolOp => (n.childrenIn .values).length - 1
  | _ => 0

def complexity : Nat := 1 + sumOf (n.walk.map branchWeight)

def nests : Kind → Bool
  | .ifStmt | .whileLoop | .forLoop | .tryStmt => true
  | _ => false

mutual

def cognitiveAt (level : Nat) : Node → Nat
  | .mk kind _ children =>
    if nests kind then 1 + level + cognitiveOfFields (level + 1) children
    else cognitiveOfFields level children

def cognitiveOfFields (level : Nat) : List (Field × Node) → Nat
  | [] => 0
  | (_, child) :: rest => cognitiveAt level child + cognitiveOfFields level rest

end

def cognitiveComplexity : Nat := cognitiveAt 0 n

mutual

def nestedDepth : Node → Nat
  | .mk kind _ children =>
    if nests kind then nestedDepthOfFields children + 1 else nestedDepthOfFields children

def nestedDepthOfFields : List (Field × Node) → Nat
  | [] => 0
  | (_, child) :: rest => max (nestedDepth child) (nestedDepthOfFields rest)

end

def isCountedStatement : Kind → Bool
  | .assign | .augAssign | .returnStmt | .raiseStmt | .assertStmt | .passStmt | .breakStmt
  | .continueStmt | .importStmt | .importFrom _ _ | .exprStmt | .deleteStmt => true
  | _ => false

def statementCount : Nat := n.walk.countP fun m => isCountedStatement m.kind

def returnCount : Nat := n.walk.countP fun m => m.kind == .returnStmt

def parameterCount : Nat := ((n.childIn? .args).map fun args => (args.childrenIn .args).length).getD 0

def attributeCount : Nat :=
  sumOf ((n.childrenIn .body).map fun child =>
    match child.kind with
    | .annAssign => 1
    | .assign => (child.childrenIn .targets).length
    | _ => 0)

structure FunctionMetrics where
  name : String
  lines : Nat
  complexity : Nat
  parameters : Nat
  returns : Nat
  cognitiveComplexity : Nat
  nestedDepth : Nat
  statements : Nat
  docstring : Option String
  startLine : Nat
  endLine : Nat

structure ClassMetrics where
  name : String
  methods : List FunctionMetrics
  lines : Nat
  complexity : Nat
  inheritanceDepth : Nat
  attributes : Nat
  docstring : Option String
  startLine : Nat
  endLine : Nat
deriving Inhabited

def measureFunction (name : String) (n : Node) : FunctionMetrics where
  name := name
  lines := (n.childrenIn .body).length
  complexity := complexity n
  parameters := parameterCount n
  returns := returnCount n
  cognitiveComplexity := cognitiveComplexity n
  nestedDepth := nestedDepth n
  statements := statementCount n
  docstring := n.docstring?.map cleanDoc
  startLine := n.line
  endLine := n.endLine

def measureClass (name : String) (n : Node) : ClassMetrics where
  name := name
  methods := []
  lines := (n.childrenIn .body).length
  complexity := complexity n
  inheritanceDepth := (n.childrenIn .bases).length
  attributes := attributeCount n
  docstring := n.docstring?.map cleanDoc
  startLine := n.line
  endLine := n.endLine

/-! The metrics of a module. Its tree is walked level by level. While the body of a class is looked
through, the class is the current one, and functions are attached to the first class of that name
registered before it. -/

structure ImportEntry where
  source : Option String
  name : String
  asname : Option String
  line : Nat

structure Inventory where
  current : Option String := none
  functions : List FunctionMetrics := []
  classes : List ClassMetrics := []
  imports : List ImportEntry := []

def attachMethods (name : String) (methods : List FunctionMetrics) : List ClassMetrics → List ClassMetrics
  | [] => []
  | c :: rest =>
    if c.name = name then { c with methods := c.methods ++ methods } :: rest
    else c :: attachMethods name methods rest

variable (n : Node)

def importEntries (source : Option String) (n : Node) : List ImportEntry :=
  (n.childrenIn .names).filterMap fun a =>
    match a.kind with
    | .alias name asname => some { source, name, asname, line := n.line }
    | _ => none

def Inventory.addFunction (inv : Inventory) (n : Node) : Inventory :=
  match n.kind with
  | .functionDef name =>
    match inv.current.filter (· != "") with
    | some owner => { inv with classes := attachMethods owner [measureFunction name n] inv.classes }
    | none => { inv with functions := inv.functions ++ [measureFunction name n] }
  | _ => inv

def Inventory.addClass (inv : Inventory) (name : String) (n : Node) : Inventory :=
  let inside := (n.childrenIn .body).foldl Inventory.addFunction { inv with current := some name }
  { inside with classes := inside.classes ++ [measureClass name n], current := none }

def Inventory.enter (inv : Inventory) (n : Node) : Inventory :=
  match n.kind with
  | .functionDef _ => inv.addFunction n
  | .classDef name => inv.addClass name n
  | .importStmt => { inv with imports := inv.imports ++ importEntries none n }
  | .importFrom source _ => { inv with imports := inv.imports ++ importEntries (some (source.getD "")) n }
  | _ => inv

def inventory (tree : Node) : Inventory := tree.walk.foldl Inventory.enter {}

def isComment (line : String) : Bool := Text.startsWith "#" (Text.strip line)

variable (source : String)

def codeLineCount : Nat := (Text.lines source).countP fun line => Text.strip line != "" && !isComment line

def commentCount : Nat := (Text.lines source).countP isComment

def maintainability (codeLines comments : Nat) : Num :=
  let share := if codeLines = 0 then 0.0 else nearestFloat false comments codeLines
  let index := 171.0 - 5.2 * 0.0 - 0.23 * Float.ofNat codeLines + 50.0 * share
  Num.max (.int 0) (Num.min (.int 100) (.float index))

structure ModuleMetrics where
  inventory : Inventory
  lines : Nat
  codeLines : Nat
  comments : Nat

def measureTree (tree : Node) : ModuleMetrics where
  inventory := inventory tree
  lines := (Text.lines source).length
  codeLines := codeLineCount source
  comments := commentCount source

def nestingWalk : Walk where
  before := 10
  calls
    | .ifStmt | .whileLoop | .forLoop | .tryStmt | .constant _ => 3
    | _ => 2
  mark := 3
  listing := 1

def checkNesting (i : Interpreter) (tree : Node) : Outcome Unit :=
  tree.walk.forM fun n =>
    match n.kind with
    | .functionDef _ => nestingWalk.check i n
    | _ => .ok ()

def measure (i : Interpreter) (source : String) : Outcome ModuleMetrics := do
  let p ← i.read source
  checkNesting i p.tree
  return measureTree source p.tree

variable (m : ModuleMetrics)

def ModuleMetrics.allFunctions : List FunctionMetrics :=
  m.inventory.functions ++ m.inventory.classes.flatMap (·.methods)

def ModuleMetrics.above (measure : FunctionMetrics → Nat) (threshold : Num) :
    List FunctionMetrics := m.allFunctions.filter fun f => Num.lt threshold (.int (measure f))

def ModuleMetrics.cognitive : Nat := sumOf (m.inventory.functions.map (·.cognitiveComplexity))

def FunctionMetrics.toValue (f : FunctionMetrics) : Value :=
  .object [
    ("name", f.name), ("lines", .nat f.lines), ("complexity", .nat f.complexity),
    ("parameters", .nat f.parameters), ("returns", .nat f.returns),
    ("cognitive_complexity", .nat f.cognitiveComplexity), ("nested_depth", .nat f.nestedDepth),
    ("statements", .nat f.statements), ("docstring", .ofText? f.docstring),
    ("start_line", .nat f.startLine), ("end_line", .nat f.endLine)]

def ClassMetrics.toValue (c : ClassMetrics) : Value :=
  .object [
    ("name", c.name), ("methods", .list (c.methods.map (·.toValue))), ("lines", .nat c.lines),
    ("complexity", .nat c.complexity), ("inheritance_depth", .nat c.inheritanceDepth),
    ("attributes", .nat c.attributes), ("docstring", .ofText? c.docstring),
    ("start_line", .nat c.startLine), ("end_line", .nat c.endLine)]

def ImportEntry.toValue (i : ImportEntry) : Value :=
  .object ((i.source.map fun s => ("module", Value.text s)).toList ++
    [("name", .text i.name), ("asname", .ofText? i.asname), ("line", .nat i.line)])

def ModuleMetrics.toValue (m : ModuleMetrics) : Value :=
  .object [
    ("functions", .list (m.inventory.functions.map (·.toValue))),
    ("classes", .list (m.inventory.classes.map (·.toValue))),
    ("imports", .list (m.inventory.imports.map (·.toValue))),
    ("lines", .nat m.lines),
    ("complexity", .int 0),
    ("maintainability_index", .ofNum (maintainability m.codeLines m.comments)),
    ("loc", .nat m.codeLines),
    ("comments", .nat m.comments),
    ("cognitive_complexity", .nat m.cognitive)]

def pathWeight : Nat :=
  match n.kind with
  | .ifStmt | .whileLoop | .forLoop => 1
  | .boolOp => (n.childrenIn .values).length - 1
  | .tryStmt => (n.childrenIn .handlers).length
  | _ => 0

def pathComplexity : Nat := 1 + sumOf (n.walk.map pathWeight)

structure Summary where
  loc : Nat
  functions : Nat
  classes : Nat
  complexity : Nat
  imports : Nat
  comments : Nat

def isFunction : Bool :=
  match n.kind with
  | .functionDef _ => true
  | _ => false

def isClass : Bool :=
  match n.kind with
  | .classDef _ => true
  | _ => false

def isImport : Bool :=
  match n.kind with
  | .importStmt | .importFrom _ _ => true
  | _ => false

def summaryOf (tree : Node) : Summary where
  loc := (Text.lines source).length
  functions := tree.walk.countP isFunction
  classes := tree.walk.countP isClass
  complexity := sumOf ((tree.walk.filter isFunction).map pathComplexity)
  imports := tree.walk.countP isImport
  comments := commentCount source

def summarize (i : Interpreter) (source : String) : Outcome Summary :=
  (i.read source).map fun p => summaryOf source p.tree

def Summary.toValue (s : Summary) : Value :=
  .object [
    ("loc", .nat s.loc), ("functions", .nat s.functions), ("classes", .nat s.classes),
    ("complexity", .nat s.complexity), ("imports", .nat s.imports), ("comments", .nat s.comments)]

def failedSummary (f : Fault) : Value :=
  .object [
    ("loc", .int 0), ("functions", .int 0), ("classes", .int 0), ("complexity", .int 0),
    ("imports", .int 0), ("comments", .int 0), ("error", f.text)]

/-! The complexity of blocks. A function counts its branches but not those of functions inside it; a
class counts the mean over its methods. -/

structure Block where
  name : String
  complexity : Nat
  line : Nat

structure ClassBlock where
  name : String
  line : Nat
  methods : List Block
  total : Nat

/-- The share of the total that falls on each method, rounded down, and one more if there are
several methods; without methods the total. -/
def ClassBlock.complexity (c : ClassBlock) : Nat :=
  match c.methods.length with
  | 0 | 1 => c.total
  | n => c.total / n + 1

structure Tally where
  branches : Nat := 0
  functions : List Block := []
  classes : List ClassBlock := []

def Tally.append (a b : Tally) : Tally where
  branches := a.branches + b.branches
  functions := a.functions ++ b.functions
  classes := a.classes ++ b.classes

def ownBranches (n : Node) : Nat :=
  let present := fun (f : Field) => if (n.childrenIn f).isEmpty then 0 else 1
  match n.kind with
  | .tryStmt => (n.childrenIn .handlers).length + present .orelse
  | .boolOp => (n.childrenIn .values).length - 1
  | .ifStmt | .ifExp => 1
  | .forLoop | .whileLoop | .asyncFor => 1 + present .orelse
  | .comprehension => 1 + (n.childrenIn .ifs).length
  | _ => 0

def functionBlock (name : String) (line : Nat) (body : List Tally) : Block where
  name := name
  complexity := 1 + sumOf (body.map (·.branches))
  line := line

def classBlock (name : String) (line : Nat) (body : List Tally) : ClassBlock where
  name := name
  line := line
  methods := body.flatMap (·.functions)
  total := 1 + sumOf (body.map fun t => t.branches + sumOf (t.functions.map (·.complexity)))

mutual

def tally : Node → Tally
  | .mk kind span children =>
    match kind with
    | .assertStmt => { branches := 1 }
    | .functionDef name | .asyncFunctionDef name =>
      { functions := [functionBlock name span.line (tallyBody children)] }
    | .classDef name => { classes := [classBlock name span.line (tallyBody children)] }
    | _ => Tally.append { branches := ownBranches (.mk kind span children) } (tallyFields children)

def tallyFields : List (Field × Node) → Tally
  | [] => {}
  | (_, child) :: rest => Tally.append (tally child) (tallyFields rest)

def tallyBody : List (Field × Node) → List Tally
  | [] => []
  | (f, child) :: rest => if f = .body then tally child :: tallyBody rest else tallyBody rest

end

def blocks (tree : Node) : List Block :=
  let t := tally tree
  t.functions ++ t.classes.flatMap fun c => ⟨c.name, c.complexity, c.line⟩ :: c.methods

/-- The walk that looks for blocks: of a function or a class it sees the body only, and of an
assertion nothing. -/
def blockWalk : Walk where
  before := 9
  calls
    | .functionDef _ | .classDef _ | .assertStmt => 2
    | .constant _ => 4
    | _ => 3
  mark := 4
  listing := 1
  enters
    | .functionDef _, f | .asyncFunctionDef _, f | .classDef _, f => f = .body
    | .assertStmt, _ => false
    | _, _ => true

def blockReport (i : Interpreter) (source : String) : Value :=
  match (do
      let p ← i.read source
      blockWalk.check i p.tree
      return blocks p.tree) with
  | .error f => .object [("error", Fault.text f)]
  | .ok found =>
    .object [
      ("complexity_score", .nat (sumOf (found.map (·.complexity)))),
      ("details", .list (found.map fun b => .object [
        ("name", b.name), ("complexity", .nat b.complexity), ("line", .nat b.line)]))]

end CodeAudit.Metrics

import CodeAudit.Number.Num

/-! Values that come from outside. Objects keep the order of their entries; one with keys that are
not all texts is a `mapping`. `display` is the plain text of a value and `literal` its text inside
other values. -/

namespace CodeAudit

structure Special where
  kind : String
  shown : String
  inside : String
  answer : String
deriving DecidableEq

inductive Value where
  | null
  | bool (b : Bool)
  | int (n : Int)
  | float (x : Float)
  | text (s : String)
  | list (items : List Value)
  | object (entries : List (String × Value))
  | mapping (entries : List (Value × Value))
  | special (s : Special)
deriving Inhabited

instance : Coe String Value := ⟨.text⟩

abbrev Entries := List (String × Value)

namespace Entries

def put (key : String) (v : Value) : Entries → Entries
  | [] => [(key, v)]
  | (k, old) :: rest => if k = key then (k, v) :: rest else (k, old) :: put key v rest

def erase (key : String) (entries : Entries) : Entries := entries.filter fun e => e.1 ≠ key

def merge (old new : Entries) : Entries := new.foldl (fun acc e => put e.1 e.2 acc) old

def ofList (entries : Entries) : Entries := merge [] entries

end Entries

namespace Value

def nat (n : Nat) : Value := .int n

def texts (items : List String) : Value := .list (items.map .text)

def ofText? : Option String → Value
  | some s => .text s
  | none => .null

def ofNum : Num → Value
  | .int n => .int n
  | .float x => .float x

def number? : Value → Option Num
  | .int n => some (.int n)
  | .float x => some (.float x)
  | .bool b => some (.int (if b then 1 else 0))
  | _ => none

def whole? : Value → Option Int
  | .int n => some n
  | .bool b => some (if b then 1 else 0)
  | _ => none

def truthy : Value → Bool
  | .null => false
  | .bool b => b
  | .int n => n != 0
  | .float x => x != 0
  | .text s => s != ""
  | .list items => !items.isEmpty
  | .object entries => !entries.isEmpty
  | .mapping entries => !entries.isEmpty
  | .special s => s.inside != "b''"

mutual

def equals : Value → Value → Bool
  | .null, b => match b with
    | .null => true
    | _ => false
  | .text a, b => match b with
    | .text c => a == c
    | _ => false
  | .list xs, b => match b with
    | .list ys => equalsAll xs ys
    | _ => false
  | .object xs, b => match b with
    | .object ys => xs.length == ys.length && equalsEntries xs ys
    | _ => false
  | .mapping xs, b => match b with
    | .mapping ys => xs.length == ys.length && equalsPairs xs ys
    | _ => false
  | .special s, b => match b with
    | .special t => s == t
    | _ => false
  | .bool a, b => (b.number?.map (Num.eq (.int (if a then 1 else 0)))).getD false
  | .int m, b => (b.number?.map (Num.eq (.int m))).getD false
  | .float x, b => (b.number?.map (Num.eq (.float x))).getD false

def equalsAll : List Value → List Value → Bool
  | [], ys => ys.isEmpty
  | x :: xs, ys => match ys with
    | [] => false
    | y :: rest => equals x y && equalsAll xs rest

def equalsEntries : List (String × Value) → List (String × Value) → Bool
  | [], _ => true
  | (k, v) :: rest, ys =>
    (match ys.lookup k with
      | some w => equals v w
      | none => false) && equalsEntries rest ys

def equalsPairs : List (Value × Value) → List (Value × Value) → Bool
  | [], _ => true
  | (k, v) :: rest, ys => ys.any (fun e => equals k e.1 && equals v e.2) && equalsPairs rest ys

end

mutual

def literal : Value → String
  | .null => "None"
  | .bool b => if b then "True" else "False"
  | .int n => intText n
  | .float x => floatText x
  | .text s => quoted s
  | .list items => "[" ++ Text.join ", " (literals items) ++ "]"
  | .object entries => "\x7b" ++ Text.join ", " (entryLiterals entries) ++ "\x7d"
  | .mapping entries => "\x7b" ++ Text.join ", " (pairLiterals entries) ++ "\x7d"
  | .special s => s.inside

def literals : List Value → List String
  | [] => []
  | v :: rest => literal v :: literals rest

def entryLiterals : List (String × Value) → List String
  | [] => []
  | (k, v) :: rest => (quoted k ++ ": " ++ literal v) :: entryLiterals rest

def pairLiterals : List (Value × Value) → List String
  | [] => []
  | (k, v) :: rest => (literal k ++ ": " ++ literal v) :: pairLiterals rest

end

def display : Value → String
  | .text s => s
  | .special s => s.shown
  | v => literal v

def kind : Value → String
  | .null => "NoneType"
  | .bool _ => "bool"
  | .int _ => "int"
  | .float _ => "float"
  | .text _ => "str"
  | .list _ => "list"
  | .object _ => "dict"
  | .mapping _ => "dict"
  | .special s => s.kind

def putPair (key v : Value) : List (Value × Value) → List (Value × Value)
  | [] => [(key, v)]
  | (k, old) :: rest => if equals k key then (k, v) :: rest else (k, old) :: putPair key v rest

def textKey? : Value × Value → Option (String × Value)
  | (.text key, v) => some (key, v)
  | _ => none

def ofPairs (pairs : List (Value × Value)) : Value :=
  let merged := pairs.foldl (fun acc e => putPair e.1 e.2 acc) []
  match merged.mapM textKey? with
  | some entries => .object entries
  | none => .mapping merged

end Value

end CodeAudit

/-! Operations on values whose kind is not known beforehand. Each succeeds or names the kind of
value that stood in its way. -/

namespace CodeAudit.Value

variable {α : Type} (v : Value) (name : String)

def lacks : Fault := .noAttribute ("'" ++ v.kind ++ "' object has no attribute '" ++ name ++ "'")

def cannot (words : String) : Fault := .wrongType ("'" ++ v.kind ++ "' object " ++ words)

def noPath : Fault := .wrongType ("expected str, bytes or os.PathLike object, not " ++ v.kind)

variable (key : String)

def findText? (pairs : List (Value × Value)) : Option Value := (pairs.filterMap textKey?).lookup key

def fetch (default : Value) : Outcome Value :=
  match v with
  | .object entries => .ok ((entries.lookup key).getD default)
  | .mapping pairs => .ok ((findText? key pairs).getD default)
  | _ => .error (v.lacks "get")

def member : Outcome Value :=
  match v with
  | .object entries =>
    match entries.lookup key with
    | some found => .ok found
    | none => .error (.missingKey key)
  | .mapping pairs =>
    match findText? key pairs with
    | some found => .ok found
    | none => .error (.missingKey key)
  | .list _ => .error (.wrongType "list indices must be integers or slices, not str")
  | .text _ => .error (.wrongType "string indices must be integers, not 'str'")
  | _ => .error (v.cannot "is not subscriptable")

def keyText : Outcome String :=
  match v with
  | .null => .ok "null"
  | .bool b => .ok (if b then "true" else "false")
  | .int n => .ok (intText n)
  | .float x => .ok (floatBrief x)
  | .text s => .ok s
  | .special s => .ok s.shown
  | .list _ | .object _ | .mapping _ => .error (.wrongType ("unhashable type: '" ++ v.kind ++ "'"))

def item (items : List α) (index : Int) : Outcome α :=
  let place := if index < 0 then index + items.length else index
  match (if place < 0 then none else items[place.toNat]?) with
  | some x => .ok x
  | none => .error (.badIndex "list index out of range")

def memberAt (v key : Value) : Outcome Value :=
  match v, key with
  | v, .text s => v.member s
  | .list items, key =>
    match key.whole? with
    | some n => item items n
    | none => .error (.wrongType ("list indices must be integers or slices, not " ++ key.kind))
  | .text s, key =>
    match key.whole? with
    | some n => (item s.toList n).map (fun c => .text c.toString) |>.mapError fun _ =>
        .badIndex "string index out of range"
    | none => .error (.wrongType ("string indices must be integers, not '" ++ key.kind ++ "'"))
  | .object _, key => do
    let _ ← key.keyText
    throw (.missingItem key.literal)
  | .mapping pairs, key => do
    let _ ← key.keyText
    match pairs.find? fun e => key.equals e.1 with
    | some e => return e.2
    | none => throw (.missingItem key.literal)
  | v, _ => .error (v.cannot "is not subscriptable")

def part : Outcome Value :=
  match v with
  | .object entries =>
    match entries.lookup name with
    | some found => .ok found
    | none => .error (.noAttribute ("'types.SimpleNamespace' object has no attribute '" ++ name ++ "'"))
  | _ => .error (v.lacks name)

def items (v : Value) : Outcome (List (Value × Value)) :=
  match v with
  | .object entries => .ok (entries.map fun (k, x) => (.text k, x))
  | .mapping pairs => .ok pairs
  | _ => .error (v.lacks "items")

def parts : Outcome (List Value) :=
  match v with
  | .list items => .ok items
  | .object entries => .ok (entries.map fun e => .text e.1)
  | .mapping pairs => .ok (pairs.map (·.1))
  | .text s => .ok (s.toList.map fun c => .text c.toString)
  | _ => .error (v.cannot "is not iterable")

def size : Outcome Nat :=
  match v with
  | .list items => .ok items.length
  | .object entries => .ok entries.length
  | .mapping pairs => .ok pairs.length
  | .text s => .ok s.length
  | _ => .error (.wrongType ("object of type '" ++ v.kind ++ "' has no len()"))

def holds (needle : String) : Outcome Bool :=
  match v with
  | .list items => .ok (items.any fun item => equals (.text needle) item)
  | .object entries => .ok (entries.lookup needle).isSome
  | .mapping pairs => .ok (findText? needle pairs).isSome
  | .text s => .ok (Text.occurs needle s)
  | _ => .error (.wrongType ("argument of type '" ++ v.kind ++ "' is not iterable"))

def entries : Outcome Entries := do
  (← v.items).mapM fun (k, x) => return (← k.keyText, x)

def assign (new : Value) : Outcome Value :=
  match v with
  | .object entries => .ok (.object (Entries.put key new entries))
  | .mapping pairs => .ok (.mapping (putPair (.text key) new pairs))
  | .list _ => .error (.wrongType "list indices must be integers or slices, not str")
  | v => .error (v.cannot "does not support item assignment")

def asKey : Outcome Value := do
  let _ ← v.keyText
  return v

def fetchAt (v key default : Value) : Outcome Value :=
  match v with
  | .object _ | .mapping _ => do
    let key ← key.asKey
    return (((← v.items).find? fun e => key.equals e.1).map (·.2)).getD default
  | v => .error (v.lacks "get")

def placeIn (items : List Value) (key : Value) : Outcome Nat := do
  let some n := key.whole? | .error (.wrongType ("list indices must be integers or slices, not " ++ key.kind))
  let _ ← item items n
  return (if n < 0 then n + items.length else n).toNat

def assignAt (v key new : Value) : Outcome Value :=
  match v, key with
  | v, .text s => v.assign s new
  | .object _, key | .mapping _, key => do
    return ofPairs ((← v.items) ++ [(← key.asKey, new)])
  | .list items, key => do return .list (items.set (← placeIn items key) new)
  | v, _ => .error (v.cannot "does not support item assignment")

def removeAt (v key : Value) : Outcome Value :=
  match v with
  | .object _ | .mapping _ => do
    let key ← key.asKey
    return ofPairs ((← v.items).filter fun e => !key.equals e.1)
  | .list items => do return .list (items.eraseIdx (← placeIn items key))
  | v => .error (v.cannot "doesn't support item deletion")

def pairAt (place : Nat) (v : Value) : Outcome (Value × Value) :=
  match v.parts with
  | .ok [key, x] => do return (← key.asKey, x)
  | .ok items => .error (.badValue ("dictionary update sequence element #" ++ natText place ++
      " has length " ++ natText items.length ++ "; 2 is required"))
  | .error _ => .error (.wrongType
      ("cannot convert dictionary update sequence element #" ++ natText place ++ " to a sequence"))

def pairs : Outcome (List (Value × Value)) :=
  match v with
  | .object _ | .mapping _ => v.items
  | v => do (← v.parts).zipIdx.mapM fun (item, place) => pairAt place item

def pairsBefore (place : Nat) : List Value → List (Value × Value) × Outcome Unit
  | [] => ([], .ok ())
  | item :: rest =>
    match pairAt place item with
    | .ok pair =>
      let (pairs, ending) := pairsBefore (place + 1) rest
      (pair :: pairs, ending)
    | .error f => ([], .error f)

def mergeBefore (old new : Value) : Value × Outcome Unit :=
  match old.items, new with
  | .error _, _ => (old, .error (old.lacks "update"))
  | .ok items, .object entries => (ofPairs (items ++ entries.map fun e => (.text e.1, e.2)), .ok ())
  | .ok items, .mapping pairs => (ofPairs (items ++ pairs), .ok ())
  | .ok items, new =>
    match new.parts with
    | .error f => (old, .error f)
    | .ok parts =>
      let (pairs, ending) := pairsBefore 0 parts
      (ofPairs (items ++ pairs), ending)

def mergeInto (old new : Value) : Outcome Value :=
  match old with
  | .object _ | .mapping _ => do return ofPairs ((← old.items) ++ (← new.pairs))
  | old => .error (old.lacks "update")

def occursIn (name collection : Value) : Outcome Bool :=
  match name, collection with
  | .text s, v => v.holds s
  | v, .object _ => do
    let _ ← v.keyText
    return false
  | v, .mapping pairs => do
    let _ ← v.keyText
    return pairs.any fun e => v.equals e.1
  | v, .list items => .ok (items.any v.equals)
  | v, .text _ =>
    .error (.wrongType ("'in <string>' requires string as left operand, not " ++ v.kind))
  | _, v => .error (.wrongType ("argument of type '" ++ v.kind ++ "' is not iterable"))

def textFor : Outcome String :=
  match v with
  | .text s => .ok s
  | _ => .error (v.lacks name)

def unsupported (sign : String) (a b : Value) : Fault :=
  .wrongType ("unsupported operand type(s) for " ++ sign ++ ": '" ++ a.kind ++ "' and '" ++ b.kind ++ "'")

def unordered (sign : String) (a b : Value) : Fault :=
  .wrongType
    ("'" ++ sign ++ "' not supported between instances of '" ++ a.kind ++ "' and '" ++ b.kind ++ "'")

def arith (sign : String) (op : Num → Num → Outcome Num) (a b : Value) : Outcome Value :=
  match a.number?, b.number? with
  | some x, some y => (op x y).map ofNum
  | _, _ => .error (unsupported sign a b)

mutual

/-- The order of two values of like kind. Without an order, the fault names the first two values
that have none. -/
def order? (sign : String) : Value → Value → Outcome (Option Ordering)
  | .text a, b => match b with
    | .text c => .ok (some (compare a c))
    | _ => .error (unordered sign (.text a) b)
  | .list xs, b => match b with
    | .list ys => orderItems? sign xs ys
    | _ => .error (unordered sign (.list xs) b)
  | .int m, b => orderNum sign (.int m) (.int m) b
  | .float x, b => orderNum sign (.float x) (.float x) b
  | .bool p, b => orderNum sign (.bool p) (.int (if p then 1 else 0)) b
  | .null, b => .error (unordered sign .null b)
  | .object xs, b => .error (unordered sign (.object xs) b)
  | .mapping xs, b => .error (unordered sign (.mapping xs) b)
  | .special s, b => .error (unordered sign (.special s) b)

def orderItems? (sign : String) : List Value → List Value → Outcome (Option Ordering)
  | [], [] => .ok (some .eq)
  | [], _ :: _ => .ok (some .lt)
  | _ :: _, [] => .ok (some .gt)
  | x :: xs, y :: ys => if equals x y then orderItems? sign xs ys else order? sign x y

def orderNum (sign : String) (a : Value) (x : Num) (b : Value) : Outcome (Option Ordering) :=
  match b.number? with
  | some y => .ok (Num.compare? x y)
  | none => .error (unordered sign a b)

end

variable (a b : Value)

def less : Outcome Bool := (order? "<" a b).map (· == some .lt)

def greater : Outcome Bool := (order? ">" a b).map (· == some .gt)

def atMost : Outcome Bool := (order? "<=" a b).map fun o => o == some .lt || o == some .eq

def atLeast : Outcome Bool := (order? ">=" a b).map fun o => o == some .gt || o == some .eq

theorem atLeast_nat_int (m : Nat) (n : Int) : atLeast (.nat m) (.int n) = .ok (decide (n ≤ m)) := by
  have hc : (compare (m : Int) n).isGE = decide (n ≤ m) := by
    rw [Bool.eq_iff_iff, decide_eq_true_iff]
    exact Std.isGE_compare
  rw [← hc]
  simp only [atLeast, nat, order?, orderNum, number?, Num.compare?]
  cases compare (m : Int) n <;> rfl

end CodeAudit.Value

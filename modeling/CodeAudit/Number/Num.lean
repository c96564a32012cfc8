import CodeAudit.Fault
import CodeAudit.Number.Decimal

/-! Numbers that are whole or floating. Division always gives a floating number; a mixed operation
is done in floating numbers, while a mixed comparison is exact. -/

namespace CodeAudit

def intOfFloat (x : Float) : Outcome Int :=
  match Dyadic.ofFloat? x with
  | some d => .ok d.truncate
  | none =>
    if x.isNaN then .error (.badValue "cannot convert float NaN to integer")
    else .error (.overflow "cannot convert float infinity to integer")

inductive Num where
  | int (n : Int)
  | float (x : Float)
deriving Inhabited

namespace Num

def toFloat : Num → Outcome Float
  | .float x => .ok x
  | .int n =>
    match floatOfInt? n with
    | some x => .ok x
    | none => .error (.overflow "int too large to convert to float")

def fitsFloat : Num → Bool
  | .float _ => true
  | .int n => n.natAbs < Nat.pow 2 1024 - Nat.pow 2 970

def compare? : Num → Num → Option Ordering
  | .int m, .int n => some (compare m n)
  | .float x, .float y =>
    if x < y then some .lt else if x == y then some .eq else if y < x then some .gt else none
  | .float x, .int n => floatWithInt x n
  | .int m, .float y => (floatWithInt y m).map Ordering.swap
where
  floatWithInt (x : Float) (n : Int) : Option Ordering :=
    match Dyadic.ofFloat? x with
    | some d => some (d.compareInt n)
    | none => if x.isNaN then none else if x < 0 then some .lt else some .gt

variable (a b : Num)

def lt : Bool := compare? a b == some .lt

def le : Bool := compare? a b == some .lt || compare? a b == some .eq

def eq : Bool := compare? a b == some .eq

private def arith (onInt : Int → Int → Int) (onFloat : Float → Float → Float) :
    Num → Num → Outcome Num
  | .int m, .int n => .ok (.int (onInt m n))
  | a, b => do
    let x ← a.toFloat
    let y ← b.toFloat
    return .float (onFloat x y)

def add : Num → Num → Outcome Num := arith (· + ·) (· + ·)

def sub : Num → Num → Outcome Num := arith (· - ·) (· - ·)

def mul : Num → Num → Outcome Num := arith (· * ·) (· * ·)

def div : Num → Num → Outcome Float
  | .int m, .int n =>
    if n = 0 then .error (.zeroDivision "division by zero")
    else
      let x := nearestFloat ((m < 0) != (n < 0)) m.natAbs n.natAbs
      if x.isInf then .error (.overflow "integer division result too large for a float")
      else .ok (if m = 0 then 0.0 else x)
  | a, b => do
    let x ← a.toFloat
    let y ← b.toFloat
    if y == 0 then .error (.zeroDivision "float division by zero") else return x / y

def min : Num := if lt b a then b else a

def max : Num := if lt a b then b else a

def abs : Num → Num
  | .int n => .int n.natAbs
  | .float x => .float x.abs

def round (places : Nat) : Num → Num
  | .int n => .int n
  | .float x => .float (floatRound places x)

end Num

def sumOf : List Nat → Nat
  | [] => 0
  | n :: rest => n + sumOf rest

end CodeAudit

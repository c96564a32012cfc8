import CodeAudit.Text.Basic

/-! Floating numbers as exact values. A finite `Float` is a signed whole number times a power of
two; `nearestFloat` rounds a quotient to the nearest `Float`, a tie to the even neighbour. -/

namespace CodeAudit

open Float.Model

structure Dyadic where
  negative : Bool
  mantissa : Nat
  exponent : Int
deriving DecidableEq

def roundDiv (num den : Nat) : Nat :=
  let q := num / den
  let r := num % den
  if 2 * r < den then q
  else if den < 2 * r then q + 1
  else if q % 2 = 0 then q
  else q + 1

namespace Dyadic

def ofFloat? (x : Float) : Option Dyadic :=
  match x.toModel.unpack with
  | .zero s => some ⟨s == .negative, 0, -1074⟩
  | .finite s m e _ => some ⟨s == .negative, m, e⟩
  | _ => none

variable (d : Dyadic)

def ratio : Nat × Nat :=
  if d.exponent < 0 then (d.mantissa, Nat.pow 2 d.exponent.natAbs)
  else (d.mantissa * Nat.pow 2 d.exponent.natAbs, 1)

def truncate : Int :=
  let (num, den) := d.ratio
  if d.negative then -Int.ofNat (num / den) else Int.ofNat (num / den)

def compareInt (n : Int) : Ordering :=
  let (num, den) := d.ratio
  compare (if d.negative then -Int.ofNat num else Int.ofNat num) (n * Int.ofNat den)

end Dyadic

/-- The `Float` nearest to `± num / den`, a tie going to the even one; a quotient beyond the range
gives an infinity. -/
def nearestFloat (negative : Bool) (num den : Nat) : Float :=
  let q := mkRat num den
  let sign : UnpackedFloat.Sign := if negative then .negative else .positive
  ⟨pack (
    if h : 0 < q.num.natAbs then .div .binary64 (.finite sign q.num.natAbs 0 h) (.finite .positive q.den 0 q.den_pos)
    else .zero sign)⟩

def floatOfInt? (n : Int) : Option Float :=
  let x := nearestFloat (n < 0) n.natAbs 1
  if x.isInf then none else some x

def floatOfDigits (negative : Bool) (digits : Nat) (exponent : Int) : Float :=
  let size := Int.ofNat (Nat.toDigits 10 digits).length + exponent
  if digits = 0 then (if negative then -0.0 else 0.0)
  else if 400 < size then nearestFloat negative (Nat.pow 2 1100) 1
  else if size < -400 then nearestFloat negative 1 (Nat.pow 2 1100)
  else if exponent < 0 then nearestFloat negative digits (Nat.pow 10 exponent.natAbs)
  else nearestFloat negative (digits * Nat.pow 10 exponent.natAbs) 1

/-! Decimal text of numbers. `Decimal.shortest` finds the fewest digits that read back as the same
`Float`; the others round, a half going to the even neighbour. -/

structure Decimal where
  digits : Nat
  scale : Int

namespace Decimal

variable (num den : Nat)

def belowPower (e : Int) : Bool := if e < 0 then num * Nat.pow 10 e.natAbs < den else num < den * Nat.pow 10 e.natAbs

/-- The least power of ten above a positive quotient: `10 ^ (e - 1) ≤ num / den < 10 ^ e`. -/
def magnitude : Int :=
  let top := Int.ofNat num.log2 - Int.ofNat den.log2
  let guess := Int.fdiv ((top - 1) * 1233) 4096
  (((List.range 6).map fun i => guess + Int.ofNat i - 1).find? (belowPower num den)).getD guess

def inUnits (scale : Int) : Nat × Nat :=
  if scale < 0 then (num * Nat.pow 10 scale.natAbs, den) else (num, den * Nat.pow 10 scale.natAbs)

def significant (count : Nat) (num den : Nat) : Decimal :=
  let scale := magnitude num den - Int.ofNat count
  let (n, d) := inUnits num den scale
  let digits := roundDiv n d
  if digits = Nat.pow 10 count then ⟨Nat.pow 10 (count - 1), scale + 1⟩ else ⟨digits, scale⟩

def places (count : Int) (num den : Nat) : Nat :=
  let (n, d) := inUnits num den (-count)
  roundDiv n d

def readsAs (d : Dyadic) (c : Decimal) : Bool :=
  Dyadic.ofFloat? (floatOfDigits d.negative c.digits c.scale) = some d

def exact (d : Dyadic) : Decimal :=
  let e := d.exponent
  if e < 0 then ⟨d.mantissa * Nat.pow 5 e.natAbs, e⟩ else ⟨d.mantissa * Nat.pow 2 e.natAbs, 0⟩

/-- The decimal of fewest digits that reads as the positive number `mantissa * 2 ^ exponent`; of two
such, the nearer one. -/
def shortest (d : Dyadic) : Decimal :=
  let (num, den) := d.ratio
  let top := magnitude num den
  let found := (List.range 17).findSome? fun count =>
    let scale := top - Int.ofNat (count + 1)
    let (n, unit) := inUnits num den scale
    ([roundDiv n unit, n / unit, n / unit + 1].map (⟨·, scale⟩)).find? (readsAs d)
  found.getD (exact d)

def trim (d : Decimal) : Decimal :=
  let places := List.range (Nat.toDigits 10 d.digits).length
  let zeros := (places.reverse.find? fun n => d.digits % Nat.pow 10 n = 0).getD 0
  if d.digits = 0 then ⟨0, 0⟩ else ⟨d.digits / Nat.pow 10 zeros, d.scale + Int.ofNat zeros⟩

def zeros (n : Int) : Chars := List.replicate n.toNat '0'

/-- The digits laid out, with an exponent mark if the exponent is below `-4` or above `15`. -/
def layout (d : Decimal) : String :=
  let d := d.trim
  let chars := Nat.toDigits 10 d.digits
  let exponent := d.scale + Int.ofNat chars.length - 1
  if exponent < -4 ∨ 16 ≤ exponent then
    let head := String.ofList (chars.take 1)
    let tail := String.ofList (chars.drop 1)
    let size := natText exponent.natAbs
    let size := if size.length < 2 then "0" ++ size else size
    head ++ (if tail.isEmpty then "" else "." ++ tail) ++ "e" ++
      (if exponent < 0 then "-" else "+") ++ size
  else
    -- At least one digit stands before the point and one after it.
    let all := zeros (-exponent) ++ chars ++ zeros (d.scale + 1)
    let whole := exponent.toNat + 1
    String.ofList (all.take whole ++ '.' :: all.drop whole)

end Decimal

def floatText (x : Float) : String :=
  match Dyadic.ofFloat? x with
  | none => if x.isNaN then "nan" else if x < 0 then "-inf" else "inf"
  | some d =>
    let body := if d.mantissa = 0 then "0.0" else (Decimal.shortest d).layout
    if d.negative then "-" ++ body else body

def floatRound (count : Int) (x : Float) : Float :=
  match Dyadic.ofFloat? x with
  | none => x
  | some d =>
    let (num, den) := d.ratio
    let units := Decimal.places count num den
    if count < 0 then nearestFloat d.negative (units * Nat.pow 10 count.natAbs) 1
    else nearestFloat d.negative units (Nat.pow 10 count.natAbs)

/-! Numbers with a fixed number of places, with an exponent, or in the shorter of the two. -/

inductive PrintForm where
  | fixed (places : Nat)
  | scientific (places : Nat)
  /-- So many significant digits; with an exponent where the number is very small or large. -/
  | general (digits : Nat)
  | shortest

structure PrintStyle where
  alternate : Bool := false
  /-- At least one digit stands after the point, unless there is an exponent. -/
  keepPlace : Bool := false
  plainZero : Bool := false
  upper : Bool := false

namespace PrintForm

variable (form : PrintForm)

def digits (d : Dyadic) : Chars × Int :=
  let (num, den) := d.ratio
  let ofDecimal := fun (x : Decimal) =>
    let x := x.trim
    let chars := Nat.toDigits 10 x.digits
    (chars, x.scale + Int.ofNat chars.length)
  match form with
  | .fixed places =>
    let units := Decimal.places places num den
    if units = 0 then ([], -Int.ofNat places) else ofDecimal ⟨units, -Int.ofNat places⟩
  | .scientific places => ofDecimal (Decimal.significant (places + 1) num den)
  | .general count => ofDecimal (Decimal.significant (max count 1) num den)
  | .shortest => ofDecimal (Decimal.shortest d)

def hasExponent (style : PrintStyle) (point : Int) : Bool :=
  match form with
  | .fixed _ => false
  | .scientific _ => true
  | .general count =>
    let most := Int.ofNat (max count 1)
    point ≤ -4 || (if style.keepPlace then most - 1 else most) < point
  | .shortest => point ≤ -4 || 16 < point

def window (digits : Chars) (start stop : Int) : Chars :=
  (List.range (stop - start).toNat).map fun i =>
    let place := start + Int.ofNat i
    if place < 0 then '0' else (digits[place.toNat]?).getD '0'

def exponentText (upper : Bool) (exponent : Int) : Chars :=
  let size := Nat.toDigits 10 exponent.natAbs
  (if upper then 'E' else 'e') :: (if exponent < 0 then '-' else '+') ::
    (if size.length < 2 then '0' :: size else size)

def write (style : PrintStyle) (digits : Chars) (point : Int) : Chars :=
  let withExponent := form.hasExponent style point
  let stop := match form with
    | .fixed places => point + Int.ofNat places
    | .scientific places => Int.ofNat (places + 1)
    | .general count => if style.alternate then Int.ofNat (max count 1) else Int.ofNat digits.length
    | .shortest => Int.ofNat digits.length
  let exponent := point - 1
  let point := if withExponent then 1 else point
  let start := if point ≤ 0 then point - 1 else 0
  let least := if !withExponent && style.keepPlace then point + 1 else point
  let stop := max stop least
  let after := window digits point stop
  let mark := if after.isEmpty && !style.alternate then [] else ['.']
  window digits start point ++ mark ++ after ++
    (if withExponent then exponentText style.upper exponent else [])

end PrintForm

def printFloat (form : PrintForm) (style : PrintStyle) (x : Float) : Bool × String :=
  match Dyadic.ofFloat? x with
  | none =>
    let word := if x.isNaN then "nan" else "inf"
    (!x.isNaN && x < 0, if style.upper then word.map Char.toUpper else word)
  | some d =>
    let (digits, point) := if d.mantissa = 0 then (['0'], 1) else form.digits d
    let zero := digits.isEmpty || digits == ['0']
    (d.negative && !(style.plainZero && zero), String.ofList (form.write style digits point))

def floatBrief (x : Float) : String :=
  let (negative, text) := printFloat (.general 12) {} x
  if negative then "-" ++ text else text

end CodeAudit

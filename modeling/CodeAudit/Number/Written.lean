import CodeAudit.Json
import CodeAudit.Text.LetterCase

/-! Numbers as people write them: blanks, a sign, digits of any script, and single underscores
between digits. -/

namespace CodeAudit

def plainDigits (s : Chars) : Chars :=
  s.map fun c => match digitValue? c with
    | some d => Nat.digitChar d
    | none => c

def dropUnderscores? : Option Char → Chars → Option Chars
  | _, [] => some []
  | last, '_' :: rest =>
    if (last.map Char.isDigit).getD false && (rest.head?.map Char.isDigit).getD false then
      dropUnderscores? none rest
    else none
  | _, c :: rest => (dropUnderscores? (some c) rest).map (c :: ·)

def takeSign : Chars → Bool × Chars
  | '-' :: rest => (true, rest)
  | '+' :: rest => (false, rest)
  | s => (false, s)

variable (s : String)

def numberChars? : Option Chars := dropUnderscores? none (Chars.strip (plainDigits s.toList))

def intChars? : Option (Bool × Chars) := do
  let (negative, digits) := takeSign (← numberChars? s)
  if digits.isEmpty || !digits.all Char.isDigit then none else return (negative, digits)

def intOfText? : Option Int := do
  let (negative, digits) ← intChars? s
  if maxDigits < digits.length then none
  else
    let n := Int.ofNat (Json.digitsValue digits)
    return if negative then -n else n

variable (base : Nat)

def digitIn? (c : Char) : Option Nat :=
  let n := if c.isDigit then c.toNat - 48
    else if 'a' ≤ c.toLower && c.toLower ≤ 'f' then c.toLower.toNat - 87
    else base
  if n < base then some n else none

def digitsIn? (base : Nat) : Bool → Nat → Chars → Option Nat
  | last, n, [] => if last then some n else none
  | last, n, '_' :: rest => if last then digitsIn? base false n rest else none
  | _, n, c :: rest => do digitsIn? base true (n * base + (← digitIn? base c)) rest

def baseLetter? : Option Char :=
  if base = 2 then some 'b' else if base = 8 then some 'o' else if base = 16 then some 'x' else none

def intOfTextIn (s : String) : Outcome Int :=
  let (negative, body) := takeSign (Chars.strip (plainDigits s.toList))
  let digits := match body with
    | '0' :: c :: rest =>
      if some c.toLower = baseLetter? base then
        (match rest with
          | '_' :: more => digitsIn? base false 0 more
          | more => digitsIn? base false 0 more)
      else digitsIn? base false 0 body
    | body => digitsIn? base false 0 body
  match digits with
  | some n => .ok (if negative then -(n : Int) else n)
  | none =>
    .error (.badValue ("invalid literal for int() with base " ++ natText base ++ ": " ++
      Text.take 200 (quoted s)))

def decimalOfChars? (negative : Bool) (s : Chars) : Option Float :=
  let whole := s.takeWhile Char.isDigit
  let rest := s.dropWhile Char.isDigit
  let (fraction, rest) := match rest with
    | '.' :: more => (more.takeWhile Char.isDigit, more.dropWhile Char.isDigit)
    | _ => ([], rest)
  let (exponent, rest) := Json.exponentPart rest
  if (whole.isEmpty && fraction.isEmpty) || !rest.isEmpty then none
  else
    some (floatOfDigits negative (Json.digitsValue (whole ++ fraction))
      (exponent.getD 0 - Int.ofNat fraction.length))

def floatOfText? : Option Float := do
  let (negative, body) := takeSign (← numberChars? s)
  let letters := String.ofList (body.map Char.toLower)
  let infinity : Float := 1.0 / 0.0
  if letters = "inf" || letters = "infinity" then some (if negative then -infinity else infinity)
  else if letters = "nan" then some (0.0 / 0.0)
  else decimalOfChars? negative body

def intOfText (s : String) : Outcome Int :=
  match intOfText? s, intChars? s with
  | some n, _ => .ok n
  | none, some (_, digits) => .error (tooManyDigits digits.length)
  | none, none =>
    .error (.badValue ("invalid literal for int() with base 10: " ++ Text.take 200 (quoted s)))

def floatOfText (s : String) : Outcome Float :=
  match floatOfText? s with
  | some x => .ok x
  | none => .error (.badValue ("could not convert string to float: " ++ quoted s))

def Value.toFloat (v : Value) : Outcome Float :=
  match v with
  | .text s => floatOfText s
  | _ =>
    match v.number? with
    | some n => n.toFloat
    | none =>
      .error (.wrongType ("float() argument must be a string or a real number, not '" ++ v.kind ++ "'"))

def Value.toInt (v : Value) : Outcome Int :=
  match v with
  | .text s => intOfText s
  | .float x => intOfFloat x
  | _ =>
    match v.number? with
    | some (.int n) => .ok n
    | _ =>
      .error (.wrongType
        ("int() argument must be a string, a bytes-like object or a real number, not '" ++ v.kind ++ "'"))

end CodeAudit

import CodeAudit.Text.Basic

/-! Quoted text: the quote is single unless the text holds a single one and no double one; control
characters and others that do not print are written by number. -/

namespace CodeAudit

def printableTable : RangeTable := .ofPacked "!fC1,s2647111K1&b1c2o231t8R46HM1#C1m2x2zfEx2!Q3zK1!)51&b1z)qHO8l
H!>K5z#>h%=qzyX3#xD22!^P15B&yvA|&x4#;l8(_wVz@>jV#(J[!,r$0"

def isPrintable (c : Char) : Bool :=
  if c.toNat < 128 then 32 ≤ c.toNat && c.toNat < 127 else printableTable.contains c

def hexText (width n : Nat) : String := Text.padLeft '0' width (String.ofList (Nat.toDigits 16 n))

namespace Quoted

def byNumber (c : Char) : String :=
  if c.toNat < 256 then "\\x" ++ hexText 2 c.toNat
  else if c.toNat < 65536 then "\\u" ++ hexText 4 c.toNat
  else "\\U" ++ hexText 8 c.toNat

def escape (quote c : Char) : String :=
  if c = quote then String.ofList ['\\', c]
  else if c = '\\' then "\\\\"
  else if c = '\n' then "\\n"
  else if c = '\r' then "\\r"
  else if c = '\t' then "\\t"
  else if isPrintable c then c.toString
  else byNumber c

def mark (s : String) : Char := if s.toList.contains '\'' && !s.toList.contains '"' then '"' else '\''

end Quoted

def quoted (s : String) : String :=
  let quote := Quoted.mark s
  quote.toString ++ String.join (s.toList.map (Quoted.escape quote)) ++ quote.toString

end CodeAudit

/-! Characters from bytes. A sequence that stands for no character is told with its place and with
what is wrong about it. -/

namespace CodeAudit.Utf8

inductive Front where
  | char (c : Char) (rest : List UInt8)
  | wrong (count : Nat) (reason : String)

def isTail (b : UInt8) : Bool := 0x80 ≤ b && b < 0xC0

def secondFits (first second : UInt8) : Bool :=
  isTail second &&
    (if first = 0xE0 then 0xA0 ≤ second else if first = 0xED then second < 0xA0
      else if first = 0xF0 then 0x90 ≤ second else if first = 0xF4 then second < 0x90 else true)

variable (first : UInt8)

def sizeOf? : Option Nat :=
  if first < 0x80 then some 1
  else if first < 0xC2 then none
  else if first < 0xE0 then some 2
  else if first < 0xF0 then some 3
  else if first < 0xF5 then some 4
  else none

def fitting (wanted : Nat) (rest : List UInt8) : Nat :=
  let tail := (rest.take wanted).zipIdx
  (tail.takeWhile fun (b, i) => if i = 0 then secondFits first b else isTail b).length

def front (rest : List UInt8) : Front :=
  match sizeOf? first with
  | none => .wrong 1 "invalid start byte"
  | some size =>
    let fit := fitting first (size - 1) rest
    if fit = size - 1 then
      let lead := if size = 1 then first.toNat else first.toNat % Nat.pow 2 (7 - size)
      let code := (rest.take fit).foldl (fun n b => n * 64 + b.toNat % 64) lead
      .char (Char.ofNat code) (rest.drop fit)
    else if fit = rest.length then .wrong (fit + 1) "unexpected end of data"
    else .wrong (fit + 1) "invalid continuation byte"

def complaint (place count : Nat) (first : UInt8) (reason : String) : String :=
  if count = 1 then
    "'utf-8' codec can't decode byte 0x" ++ hexText 2 first.toNat ++ " in position " ++ natText place ++
      ": " ++ reason
  else
    "'utf-8' codec can't decode bytes in position " ++ natText place ++ "-" ++
      natText (place + count - 1) ++ ": " ++ reason

def decodeFrom : Nat → Nat → List UInt8 → Except String Chars
  | 0, _, _ => .ok []
  | _, _, [] => .ok []
  | fuel + 1, place, b :: rest =>
    match front b rest with
    | .wrong count reason => .error (complaint place count b reason)
    | .char c after => do return c :: (← decodeFrom fuel (place + 1 + rest.length - after.length) after)

def decode? (bytes : List UInt8) : Except String Chars := decodeFrom (bytes.length + 1) 0 bytes

end CodeAudit.Utf8

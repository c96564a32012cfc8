import CodeAudit.Data.Value

/-! Reads JSON text; `NaN` and the infinities are numbers too. A key that occurs again replaces the
earlier value. Nesting and the digits of a whole number have limits. -/

namespace CodeAudit.Json

inductive Problem where
  | expected (words : String) (left : Nat)
  | manyDigits (count : Nat)
  | deep (words : String)

def maxDepth : Nat := 980

def isSpace (c : Char) : Bool := c == ' ' || c == '\t' || c == '\n' || c == '\r'

variable (s : Chars)

def skip : Chars := s.dropWhile isSpace

def hexValue? (c : Char) : Option Nat :=
  if '0' ≤ c && c ≤ '9' then some (c.toNat - 48)
  else if 'a' ≤ c && c ≤ 'f' then some (c.toNat - 87)
  else if 'A' ≤ c && c ≤ 'F' then some (c.toNat - 55)
  else none

def hexQuad : Chars → Option (Nat × Chars)
  | a :: b :: c :: d :: e :: rest => do
    let a ← hexValue? a
    let b ← hexValue? b
    let c ← hexValue? c
    let d ← hexValue? d
    return (((a * 16 + b) * 16 + c) * 16 + d, e :: rest)
  | _ => none

def escapeChar? : Char → Option Char
  | '"' => some '"'
  | '\\' => some '\\'
  | '/' => some '/'
  | 'b' => some '\x08'
  | 'f' => some '\x0c'
  | 'n' => some '\n'
  | 'r' => some '\r'
  | 't' => some '\t'
  | _ => none

/-- The character of a code unit, joined with the second half of a pair if one follows; half a pair
alone becomes the replacement character. -/
def joinUnits (unit : Nat) (rest : Chars) : Char × Chars :=
  if 0xD800 ≤ unit ∧ unit < 0xDC00 then
    match rest with
    | '\\' :: 'u' :: more =>
      match hexQuad more with
      | some (low, after) =>
        if 0xDC00 ≤ low ∧ low < 0xE000 then
          (Char.ofNat (0x10000 + (unit - 0xD800) * 0x400 + (low - 0xDC00)), after)
        else (Char.ofNat 0xFFFD, rest)
      | none => (Char.ofNat 0xFFFD, rest)
    | _ => (Char.ofNat 0xFFFD, rest)
  else if 0xDC00 ≤ unit ∧ unit < 0xE000 then (Char.ofNat 0xFFFD, rest)
  else (Char.ofNat unit, rest)

/-- The characters of a string after its opening quote, which stood where `start` characters were
left. Every round takes at least one character, so `fuel` need not exceed the length. -/
def stringBody (start : Nat) : Nat → Chars → Chars → Except Problem (String × Chars)
  | 0, _, _ => .error (.expected "Unterminated string starting at" start)
  | fuel + 1, acc, s =>
    match s with
    | [] => .error (.expected "Unterminated string starting at" start)
    | '"' :: rest => .ok (String.ofList acc.reverse, rest)
    | '\\' :: rest =>
      match rest with
      | [] => .error (.expected "Unterminated string starting at" start)
      | 'u' :: more =>
        match hexQuad more with
        | some (unit, after) =>
          let (c, after) := joinUnits unit after
          stringBody start fuel (c :: acc) after
        | none => .error (.expected "Invalid \\uXXXX escape" rest.length)
      | c :: more =>
        match escapeChar? c with
        | some c => stringBody start fuel (c :: acc) more
        | none => .error (.expected "Invalid \\escape" s.length)
    | c :: rest =>
      if c.toNat < 32 then .error (.expected "Invalid control character at" s.length)
      else stringBody start fuel (c :: acc) rest

def digitsValue (ds : Chars) : Nat := ds.foldl (fun n c => n * 10 + (c.toNat - 48)) 0

def wholePart : Chars → Option (Chars × Chars)
  | '0' :: rest => some (['0'], rest)
  | s =>
    let ds := s.takeWhile Char.isDigit
    if ds.isEmpty then none else some (ds, s.dropWhile Char.isDigit)

def fractionPart : Chars → Chars × Chars
  | '.' :: rest =>
    let ds := rest.takeWhile Char.isDigit
    if ds.isEmpty then ([], '.' :: rest) else (ds, rest.dropWhile Char.isDigit)
  | s => ([], s)

def exponentPart : Option Int × Chars :=
  match s with
  | c :: rest =>
    if c = 'e' ∨ c = 'E' then
      let (negative, digits) := match rest with
        | '-' :: more => (true, more)
        | '+' :: more => (false, more)
        | _ => (false, rest)
      let ds := digits.takeWhile Char.isDigit
      if ds.isEmpty then (none, s)
      else
        let n := Int.ofNat (digitsValue ds)
        (some (if negative then -n else n), digits.dropWhile Char.isDigit)
    else (none, s)
  | [] => (none, [])

def signPart : Chars → Bool × Chars
  | '-' :: rest => (true, rest)
  | s => (false, s)

def number? : Option (Except Problem (Value × Chars)) :=
  let (negative, body) := signPart s
  match wholePart body with
  | none => none
  | some (whole, rest) =>
    let (fraction, rest) := fractionPart rest
    let (exponent, rest) := exponentPart rest
    if fraction.isEmpty ∧ exponent.isNone then
      if maxDigits < whole.length then some (.error (.manyDigits whole.length))
      else
        let n := Int.ofNat (digitsValue whole)
        some (.ok (.int (if negative then -n else n), rest))
    else
      let scale := exponent.getD 0 - Int.ofNat fraction.length
      some (.ok (.float (floatOfDigits negative (digitsValue (whole ++ fraction)) scale), rest))

def wordValues : List (String × Value) := [
  ("null", .null), ("true", .bool true), ("false", .bool false), ("NaN", .float (0.0 / 0.0)),
  ("Infinity", .float (1.0 / 0.0)), ("-Infinity", .float (-1.0 / 0.0))]

def scalar : Except Problem (Value × Chars) :=
  let word := wordValues.findSome? fun (w, v) => (Chars.afterPrefix w.toList s).map fun rest => Except.ok (v, rest)
  match word.or (number? s) with
  | some r => r
  | none => .error (.expected "Expecting value" s.length)

mutual

/-- One value at the front of a text that may hold `room` more levels; `fuel` bounds the work. -/
def value : Nat → Nat → Chars → Except Problem (Value × Chars)
  | 0, _, s => .error (.expected "Expecting value" s.length)
  | fuel + 1, room, s =>
    match s with
    | '"' :: rest => do
      let (t, rest) ← stringBody s.length (s.length + 1) [] rest
      return (t, rest)
    | '[' :: rest =>
      match room with
      | 0 => .error (.deep " while decoding a JSON array from a unicode string")
      | room + 1 =>
        match skip rest with
        | ']' :: after => .ok (.list [], after)
        | first => do
          let (items, after) ← items fuel room [] first
          return (.list items, after)
    | '\x7b' :: rest =>
      match room with
      | 0 => .error (.deep " while decoding a JSON object from a unicode string")
      | room + 1 =>
        match skip rest with
        | '\x7d' :: after => .ok (.object [], after)
        | first => do
          let (entries, after) ← entries fuel room [] first
          return (.object (Entries.ofList entries), after)
    | _ => scalar s

def items : Nat → Nat → List Value → Chars → Except Problem (List Value × Chars)
  | 0, _, _, s => .error (.expected "Expecting value" s.length)
  | fuel + 1, room, acc, s => do
    let (v, rest) ← value fuel room s
    match skip rest with
    | ']' :: after => return ((v :: acc).reverse, after)
    | ',' :: after => items fuel room (v :: acc) (skip after)
    | other => .error (.expected "Expecting ',' delimiter" other.length)

def entries : Nat → Nat → List (String × Value) → Chars → Except Problem (List (String × Value) × Chars)
  | 0, _, _, s => .error (.expected "Expecting value" s.length)
  | fuel + 1, room, acc, s =>
    match s with
    | '"' :: rest => do
      let (key, rest) ← stringBody s.length (s.length + 1) [] rest
      match skip rest with
      | ':' :: after =>
        let (v, rest) ← value fuel room (skip after)
        match skip rest with
        | '\x7d' :: after => return (((key, v) :: acc).reverse, after)
        | ',' :: after => entries fuel room ((key, v) :: acc) (skip after)
        | other => .error (.expected "Expecting ',' delimiter" other.length)
      | other => .error (.expected "Expecting ':' delimiter" other.length)
    | _ => .error (.expected "Expecting property name enclosed in double quotes" s.length)

end

def Problem.fault (source : Chars) : Problem → Fault
  | .expected words left =>
    let offset := source.length - left
    let before := source.take offset
    let line := before.count '\n' + 1
    let column := (before.reverse.takeWhile (· != '\n')).length + 1
    .badDocument (words ++ ": line " ++ natText line ++ " column " ++ natText column ++ " (char " ++
      natText offset ++ ")")
  | .manyDigits count => tooManyDigits count
  | .deep words => .tooDeep ("maximum recursion depth exceeded" ++ words)

def parse (source : String) : Outcome Value :=
  let s := source.toList
  let result : Except Problem Value := do
    if s.head? = some (Char.ofNat 0xFEFF) then
      throw (.expected "Unexpected UTF-8 BOM (decode using utf-8-sig)" s.length)
    let (v, rest) ← value (2 * s.length + 2) maxDepth (skip s)
    match skip rest with
    | [] => return v
    | other => throw (.expected "Extra data" other.length)
  result.mapError (Problem.fault s)

def document? (text : String) : Outcome (Option Value) :=
  match parse text with
  | .ok v => .ok (some v)
  | .error (.badDocument _) => .ok none
  | .error f => .error f

/-! Writes values as JSON text. `Style` says what is escaped, whether keys are sorted, and how far
nested values are indented. -/

structure Style where
  ascii : Bool := true
  sorted : Bool := false
  indent : Option Nat := none

variable (c : Char)

def highUnit : Nat := 0xD800 + (c.toNat - 0x10000) / 0x400

def lowUnit : Nat := 0xDC00 + (c.toNat - 0x10000) % 0x400

def unitEscape : String :=
  if c.toNat < 0x10000 then "\\u" ++ hexText 4 c.toNat
  else "\\u" ++ hexText 4 (highUnit c) ++ "\\u" ++ hexText 4 (lowUnit c)

def charText (ascii : Bool) (c : Char) : String :=
  if c = '"' then "\\\""
  else if c = '\\' then "\\\\"
  else if c = '\n' then "\\n"
  else if c = '\r' then "\\r"
  else if c = '\t' then "\\t"
  else if c = '\x0c' then "\\f"
  else if c = '\x08' then "\\b"
  else if c.toNat < 32 then unitEscape c
  else if ascii && 126 < c.toNat then unitEscape c
  else c.toString

def stringText (ascii : Bool) (s : String) : String := "\"" ++ String.join (s.toList.map (charText ascii)) ++ "\""

def floatWord (x : Float) : String :=
  if x.isNaN then "NaN" else if x.isInf then (if x < 0 then "-Infinity" else "Infinity")
  else floatText x

variable (style : Style) (depth : Nat)

def bracket (opening closing : String) (items : List String) : String :=
  if items.isEmpty then opening ++ closing
  else match style.indent with
    | none => opening ++ Text.join ", " items ++ closing
    | some width =>
      let margin := fun n => "\n" ++ String.ofList (List.replicate (width * n) ' ')
      opening ++ margin (depth + 1) ++ Text.join ("," ++ margin (depth + 1)) items ++
        margin depth ++ closing

def keyName : Value → String
  | .text s => s
  | .null => "null"
  | .bool b => if b then "true" else "false"
  | .float x => floatWord x
  | v => v.literal

mutual

def render (style : Style) : Nat → Value → String
  | _, .null => "null"
  | _, .bool b => if b then "true" else "false"
  | _, .int n => intText n
  | _, .float x => floatWord x
  | _, .text s => stringText style.ascii s
  | depth, .list items => bracket style depth "[" "]" (renderItems style (depth + 1) items)
  | depth, .object entries =>
    let written := renderEntries style (depth + 1) entries
    let written := if style.sorted then written.mergeSort (fun a b => a.1 ≤ b.1) else written
    bracket style depth "\x7b" "\x7d" (written.map (·.2))
  | depth, .mapping pairs =>
    let written := renderPairs style (depth + 1) pairs
    let written := if style.sorted then written.mergeSort (fun a b => a.1 ≤ b.1) else written
    bracket style depth "\x7b" "\x7d" (written.map (·.2))
  | _, .special s => stringText style.ascii s.answer

def renderItems (style : Style) : Nat → List Value → List String
  | _, [] => []
  | depth, v :: rest => render style depth v :: renderItems style depth rest

def renderEntries (style : Style) : Nat → List (String × Value) → List (String × String)
  | _, [] => []
  | depth, (k, v) :: rest =>
    (k, stringText style.ascii k ++ ": " ++ render style depth v) :: renderEntries style depth rest

def renderPairs (style : Style) : Nat → List (Value × Value) → List (String × String)
  | _, [] => []
  | depth, (k, v) :: rest =>
    (keyName k, stringText style.ascii (keyName k) ++ ": " ++ render style depth v) ::
      renderPairs style depth rest

end

mutual

def isFinite : Value → Bool
  | .float x => x.isFinite
  | .list items => areFinite items
  | .object entries => entriesAreFinite entries
  | .mapping pairs => pairsAreFinite pairs
  | _ => true

def areFinite : List Value → Bool
  | [] => true
  | v :: rest => isFinite v && areFinite rest

def entriesAreFinite : List (String × Value) → Bool
  | [] => true
  | (_, v) :: rest => isFinite v && entriesAreFinite rest

def pairsAreFinite : List (Value × Value) → Bool
  | [] => true
  | (_, v) :: rest => isFinite v && pairsAreFinite rest

end

def write (v : Value) : String := render style 0 v

mutual

def isWritable : Nat → Value → Bool
  | _, .int n => (Nat.toDigits 10 n.natAbs).length ≤ maxDigits
  | levels, .list items => 0 < levels && areWritable (levels - 1) items
  | levels, .object entries => 0 < levels && entriesAreWritable (levels - 1) entries
  | levels, .mapping pairs => 0 < levels && pairsAreWritable (levels - 1) pairs
  | _, .special _ => false
  | _, .null | _, .bool _ | _, .float _ | _, .text _ => true

def areWritable : Nat → List Value → Bool
  | _, [] => true
  | levels, v :: rest => isWritable levels v && areWritable levels rest

def entriesAreWritable : Nat → List (String × Value) → Bool
  | _, [] => true
  | levels, (_, v) :: rest => isWritable levels v && entriesAreWritable levels rest

def pairsAreWritable : Nat → List (Value × Value) → Bool
  | _, [] => true
  | levels, (k, v) :: rest => isWritable 0 k && isWritable levels v && pairsAreWritable levels rest

end

/-! Writing in pieces, as to a file. The writer stops at the first thing that has no text, and what
it wrote before stays. -/

structure Draft where
  text : String
  whole : Bool

namespace Draft

def of (text : String) : Draft := ⟨text, true⟩

def stopped : Draft := ⟨"", false⟩

def append (a b : Draft) : Draft := if a.whole then ⟨a.text ++ b.text, b.whole⟩ else a

instance instAppend : Append Draft := ⟨append⟩

end Draft

def Style.lead : String :=
  match style.indent with
  | none => ""
  | some width => "\n" ++ String.ofList (List.replicate (width * depth) ' ')

def Style.comma : String := if style.indent.isNone then ", " else "," ++ style.lead depth

/-- A whole number with too many digits. It stops the writer before the comma in front of it. -/
def isLong : Value → Bool
  | .int n => maxDigits < (Nat.toDigits 10 n.natAbs).length
  | _ => false

mutual

/-- What is written of a value that stands `depth` levels deep and may hold `levels` more; entries
keep their order. -/
def draft (style : Style) : Nat → Nat → Value → Draft
  | levels, depth, .list items =>
    if levels = 0 then .stopped
    else if items.isEmpty then .of "[]"
    else draftItems style (levels - 1) (depth + 1) ("[" ++ style.lead (depth + 1)) items ++
      Draft.of (style.lead depth ++ "]")
  | levels, depth, .object entries =>
    if levels = 0 then .stopped
    else if entries.isEmpty then .of "\x7b\x7d"
    else Draft.of ("\x7b" ++ style.lead (depth + 1)) ++
      draftEntries style (levels - 1) (depth + 1) "" entries ++ Draft.of (style.lead depth ++ "\x7d")
  | levels, depth, .mapping pairs =>
    if levels = 0 then .stopped
    else if pairs.isEmpty then .of "\x7b\x7d"
    else Draft.of ("\x7b" ++ style.lead (depth + 1)) ++
      draftPairs style (levels - 1) (depth + 1) "" pairs ++ Draft.of (style.lead depth ++ "\x7d")
  | _, _, .special _ => .stopped
  | _, depth, v => if isLong v then .stopped else .of (render style depth v)

def draftItems (style : Style) : Nat → Nat → String → List Value → Draft
  | _, _, _, [] => .of ""
  | levels, depth, gap, v :: rest =>
    (if isLong v then .stopped else Draft.of gap ++ draft style levels depth v) ++
      draftItems style levels depth (style.comma depth) rest

def draftEntries (style : Style) : Nat → Nat → String → List (String × Value) → Draft
  | _, _, _, [] => .of ""
  | levels, depth, gap, (k, v) :: rest =>
    Draft.of (gap ++ stringText style.ascii k ++ ": ") ++ draft style levels depth v ++
      draftEntries style levels depth (style.comma depth) rest

def draftPairs (style : Style) : Nat → Nat → String → List (Value × Value) → Draft
  | _, _, _, [] => .of ""
  | levels, depth, gap, (k, v) :: rest =>
    (if isWritable 0 k then Draft.of (gap ++ stringText style.ascii (keyName k) ++ ": ") else .stopped) ++
      draft style levels depth v ++ draftPairs style levels depth (style.comma depth) rest

end

end CodeAudit.Json

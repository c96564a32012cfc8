import CodeAudit.Data.Value

/-! The format of a value inside a text. `Layout.read` reads one, and `Value.set` sets a value by
one. -/

namespace CodeAudit

structure Layout where
  fill : Char := ' '
  align : Char := '>'
  sign : Option Char := none
  plainZero : Bool := false
  alternate : Bool := false
  width : Nat := 0
  grouping : Option Char := none
  precision : Option Nat := none
  type : Option Char := none

def malformed {α : Type} (s : String) : Outcome α := .error (.badValue s)

def refuse (isWrong : Bool) (s : String) : Outcome Unit := if isWrong then malformed s else .ok ()

namespace Layout

variable (c : Char)

def isAlign : Bool := c == '<' || c == '>' || c == '=' || c == '^'

def maxSize : Nat := 9223372036854775807

abbrev Scan := StateT Chars Outcome

def takeNat : Scan (Option Nat) := do
  let ds := (← get).takeWhile isDecimalDigit
  if ds.isEmpty then return none
  let n : Nat := (ds.filterMap digitValue?).foldl (fun n d => n * 10 + d) 0
  refuse (maxSize < n) "Too many decimal digits in format string"
  modify (·.drop ds.length)
  return n

def takeChar (p : Char → Bool) : Scan (Option Char) := do
  match (← get).head?.filter p with
  | some c =>
    modify (·.drop 1)
    return c
  | none => return none

def shownChar : String :=
  if 32 < c.toNat && c.toNat < 128 then c.toString
  else "\\x" ++ String.ofList (Nat.toDigits 16 c.toNat)

def takeGrouping : Scan (Option Char) := do
  let comma ← takeChar (· == ',')
  let line ← takeChar (· == '_')
  refuse (line.isSome && (comma.isSome || (← get).head? = some ',')) "Cannot specify both ',' and '_'."
  return comma.or line

def groups (separator type : Char) : Bool :=
  "defgEG%F".contains type || (separator == '_' && "boxX".contains type)

def scan (kind : String) (usual : Char) (usualType : Option Char) : Scan Layout := do
  let s ← get
  let fill ← if (s.drop 1).head?.any isAlign then takeChar fun _ => true else pure none
  let align ← takeChar isAlign
  let sign ← takeChar (fun c => c == '+' || c == '-' || c == ' ')
  let plainZero ← takeChar (· == 'z')
  let alternate ← takeChar (· == '#')
  let zero ← if fill.isNone then takeChar (· == '0') else pure none
  let width ← takeNat
  let grouping ← takeGrouping
  let point ← takeChar (· == '.')
  let precision ← if point.isSome then takeNat else pure none
  refuse (point.isSome && precision.isNone) "Format specifier missing precision"
  let type := (← takeChar fun _ => true).or usualType
  refuse (!(← get).isEmpty)
    ("Invalid format specifier '" ++ String.ofList s ++ "' for object of type '" ++ kind ++ "'")
  if let (some separator, some t) := (grouping, type) then
    refuse (!groups separator t) ("Cannot specify '" ++ separator.toString ++ "' with '" ++ shownChar t ++ "'.")
  return {
    fill := fill.getD (if zero.isSome then '0' else ' ')
    align := align.getD (if zero.isSome && usual == '>' then '=' else usual)
    sign, plainZero := plainZero.isSome, alternate := alternate.isSome
    width := width.getD 0, grouping, precision, type }

def read (s : Chars) (kind : String) (usual : Char) (usualType : Option Char) : Outcome Layout :=
  (scan kind usual usualType).run' s

def unknownType (kind : String) : Fault :=
  .badValue ("Unknown format code '" ++ shownChar c ++ "' for object of type '" ++ kind ++ "'")

variable (l : Layout)

def filler (n : Nat) : Chars := List.replicate n l.fill

def place (lead body : Chars) : String :=
  let missing := l.width - (lead.length + body.length)
  String.ofList (match l.align with
    | '<' => lead ++ body ++ l.filler missing
    | '^' => l.filler (missing / 2) ++ lead ++ body ++ l.filler (missing - missing / 2)
    | '=' => lead ++ l.filler missing ++ body
    | _ => l.filler missing ++ lead ++ body)

def forbid (isWrong : Bool) (what place : String) : Outcome Unit := refuse isWrong (what ++ " not allowed " ++ place)

def setText (s : String) : Outcome String := do
  if let some c := l.type.filter (· != 's') then throw (unknownType c "str")
  let place := "in string format specifier"
  forbid (l.sign = some ' ') "Space" place
  forbid l.sign.isSome "Sign" place
  forbid l.plainZero "Negative zero coercion (z)" place
  forbid l.alternate "Alternate form (#)" place
  forbid (l.align == '=') "'=' alignment" place
  return l.place [] (s.toList.take (l.precision.getD s.length))

def groupReversed (separator : Char) (size : Nat) : Nat → Nat → Nat → Chars → Chars
  | 0, _, _, _ => []
  | fuel + 1, used, least, digits =>
    if digits.isEmpty && least = 0 then []
    else if used = size then
      -- Where only one more character is wanted, a zero stands after the separator.
      separator :: groupReversed separator size fuel 0 (max (least - 1) (if digits.isEmpty then 1 else 0))
        digits
    else
      (digits.head?.getD '0') :: groupReversed separator size fuel (used + 1) (least - 1) (digits.drop 1)

def groupDigits (separator : Option Char) (size least : Nat) (digits : Chars) : Chars :=
  match separator with
  | none => List.replicate (least - digits.length) '0' ++ digits
  | some c => (groupReversed c size (2 * (digits.length + least) + 2) 0 least digits.reverse).reverse

def signChars (negative : Bool) : Chars := if negative then ['-'] else (l.sign.filter (· != '-')).toList

def setNumber (negative : Bool) (mark digits rest : Chars) : String :=
  let lead := l.signChars negative ++ mark
  let least := if l.fill == '0' && l.align == '=' then l.width - (lead.length + rest.length) else 0
  let size := if l.type.any "boxX".toList.contains then 4 else 3
  l.place lead ((if digits.isEmpty then [] else groupDigits l.grouping size least digits) ++ rest)

def form? : Option (PrintForm × PrintStyle) :=
  let upper := l.type.any Char.isUpper
  let style : PrintStyle := { alternate := l.alternate, plainZero := l.plainZero, upper }
  let precision := l.precision.getD 6
  match l.type with
  | some 'e' | some 'E' => some (.scientific precision, style)
  | some 'f' | some 'F' | some '%' => some (.fixed precision, style)
  | some 'g' | some 'G' | some 'n' => some (.general precision, style)
  | none => some ((l.precision.map .general).getD .shortest, { style with keepPlace := true })
  | some _ => none

def maxPrecision : Nat := 2147483647

def setFloat (x : Float) : Outcome String := do
  let some (form, style) := l.form? | throw (unknownType (l.type.getD ' ') "float")
  refuse (maxPrecision < l.precision.getD 0) "precision too big"
  let percent := l.type = some '%'
  let (negative, body) := printFloat form style (if percent then x * 100.0 else x)
  let body := body.toList ++ (if percent then ['%'] else [])
  let whole := body.takeWhile Char.isDigit
  return l.setNumber negative [] whole (body.drop whole.length)

def setInt (kind : String) (n : Int) : Outcome String := do
  let check := do
    forbid l.precision.isSome "Precision" "in integer format specifier"
    forbid l.plainZero "Negative zero coercion (z)" "in integer format specifier"
  let based := fun (base : Nat) (mark : String) => do
    check
    let digits := Nat.toDigits base n.natAbs
    if base = 10 && maxDigits < digits.length then throw (tooManyDigits digits.length)
    let digits := if mark = "0X" then digits.map Char.toUpper else digits
    return l.setNumber (n < 0) (if l.alternate then mark.toList else []) digits []
  match l.type.getD 'd' with
  | 'd' | 'n' => based 10 ""
  | 'b' => based 2 "0b"
  | 'o' => based 8 "0o"
  | 'x' => based 16 "0x"
  | 'X' => based 16 "0X"
  | 'c' =>
    check
    forbid l.sign.isSome "Sign" "with integer format specifier 'c'"
    forbid l.alternate "Alternate form (#)" "with integer format specifier 'c'"
    if n < 0 || 0x10ffff < n then throw (.overflow "%c arg not in range(0x110000)")
    return l.setNumber false [] [] [Char.ofNat n.toNat]
  | c => if "eEfFgG%".contains c then l.setFloat (← (Num.int n).toFloat) else throw (unknownType c kind)

end Layout

def Value.set (v : Value) (format : Chars) : Outcome String := do
  if format.isEmpty then return v.display
  match v with
  | .text s => (← Layout.read format "str" '<' (some 's')).setText s
  | .int n => (← Layout.read format "int" '>' (some 'd')).setInt "int" n
  | .bool b => (← Layout.read format "bool" '>' (some 'd')).setInt "bool" (if b then 1 else 0)
  | .float x => (← Layout.read format "float" '>' none).setFloat x
  | _ => throw (.wrongType ("unsupported format string passed to " ++ v.kind ++ ".__format__"))

end CodeAudit

/-! Texts with fields in braces that are filled in by name, perhaps with a member in square
brackets, a conversion and a format. Doubled braces stand for braces. -/

namespace CodeAudit.Template

structure Field where
  name : Chars
  conversion : Option Char
  format : Chars

def fieldName : Bool → Chars → Outcome (Chars × Option Char × Chars)
  | _, [] => .ok ([], none, [])
  | inside, c :: rest => do
    refuse (!inside && c == '\x7b') "unexpected '\x7b' in field name"
    if !inside && (c == '\x7d' || c == ':' || c == '!') then return ([], some c, rest)
    let (name, stop, after) ← fieldName (if inside then c != ']' else c == '[') rest
    return (c :: name, stop, after)

def fieldFormat : Nat → Chars → Outcome (Chars × Chars)
  | _, [] => malformed "unmatched '\x7b' in format spec"
  | depth, c :: rest => do
    if c == '\x7d' && depth = 0 then return ([], rest)
    let depth := if c == '\x7b' then depth + 1 else if c == '\x7d' then depth - 1 else depth
    let (format, after) ← fieldFormat depth rest
    return (c :: format, after)

def readEnd (name : Chars) (conversion : Option Char) : Chars → Outcome (Field × Chars)
  | '\x7d' :: rest => .ok (⟨name, conversion, []⟩, rest)
  | ':' :: rest => do
    let (format, rest) ← fieldFormat 0 rest
    return (⟨name, conversion, format⟩, rest)
  | [] => malformed "unmatched '\x7b' in format spec"
  | _ => malformed "expected ':' after conversion specifier"

def readField (s : Chars) : Outcome (Field × Chars) := do
  let (name, stop, rest) ← fieldName false s
  match stop, rest with
  | none, _ => malformed "expected '\x7d' before end of string"
  | some '!', [] => malformed "end of string while looking for conversion specifier"
  | some '!', c :: rest => readEnd name c rest
  | some mark, rest => readEnd name none (mark :: rest)

def placeOf (name : Chars) : Outcome (Option Nat) := do
  if name.isEmpty || !name.all isDecimalDigit then return none
  Layout.takeNat.run' name

variable (v : Value)

def memberOf (key : Chars) : Outcome Value := do
  match ← placeOf key with
  | none => v.member (String.ofList key)
  | some n =>
    match v with
    | .list items => Value.item items n
    | .object _ | .mapping _ => v.memberAt (.nat n)
    | .text s =>
      match s.toList[n]? with
      | some c => return c.toString
      | none => throw (.badIndex "string index out of range")
    | _ => throw (v.cannot "is not subscriptable")

variable (name : String)

def kindText : String := "<class '" ++ name ++ "'>"

def kindNamed : Value := .special ⟨"type", kindText name, kindText name, kindText name⟩

def kindOf : Value := kindNamed v.kind

def kindsAbove : List String := if name = "object" then [] else if name = "bool" then
    ["int", "object"] else ["object"]

def kindsValue (names : List String) : Value :=
  let shown := match names with
    | [name] => "(" ++ kindText name ++ ",)"
    | names => "(" ++ Text.join ", " (names.map kindText) ++ ")"
  .special ⟨"tuple", shown, shown, shown⟩

def kindName? : Option String :=
  match v with
  | .special s =>
    if s.kind = "type" then some (String.ofList ((s.shown.toList.drop 8).takeWhile (· != '\''))) else none
  | _ => none

def attributeOf : Outcome Value :=
  let found : Option Value := match name, kindName? v, v.whole? with
    | "__class__", _, _ => kindOf v
    | "__name__", some k, _ | "__qualname__", some k, _ => some k
    | "__module__", some _, _ => some "builtins"
    | "__base__", some k, _ => ((kindsAbove k).head?.map kindNamed).getD .null
    | "__bases__", some k, _ => kindsValue ((kindsAbove k).take 1)
    | "__mro__", some k, _ => kindsValue (k :: kindsAbove k)
    | "real", _, some n | "numerator", _, some n => some (.int n)
    | "imag", _, some _ => some (.int 0)
    | "denominator", _, some _ => some (.int 1)
    | _, _, _ => match name, v with
      | "real", .float x => some (.float x)
      | "imag", .float _ => some (.float 0.0)
      | _, _ => none
  found.elim (.error (v.lacks name)) .ok

def isPlain (c : Char) : Bool := c != '.' && c != '['

def follow : Nat → Value → Chars → Outcome Value
  | 0, v, _ => .ok v
  | _, v, [] => .ok v
  | fuel + 1, v, '[' :: rest => do
    let key := rest.takeWhile (· ≠ ']')
    refuse (key.length = rest.length) "Missing ']' in format string"
    refuse key.isEmpty "Empty attribute in format string"
    follow fuel (← memberOf v key) (rest.drop (key.length + 1))
  | fuel + 1, v, '.' :: rest => do
    let name := rest.takeWhile isPlain
    refuse name.isEmpty "Empty attribute in format string"
    follow fuel (← attributeOf v (String.ofList name)) (rest.drop name.length)
  | _, _, _ => malformed "Only '.' or '[' may follow ']' in format field specifier"

def lookUp (vars : Entries) (name : Chars) : Outcome Value := do
  let first := name.takeWhile isPlain
  let place ← placeOf first
  if let some n := if first.isEmpty then some 0 else place then
    throw (.badIndex ("Replacement index " ++ natText n ++ " out of range for positional args tuple"))
  match vars.lookup (String.ofList first) with
  | some v => follow (name.length + 1) v (name.drop first.length)
  | none => throw (.missingKey (String.ofList first))

def asciiOnly (s : String) : String :=
  String.join (s.toList.map fun c => if c.toNat < 128 then c.toString else Quoted.byNumber c)

def convert : Option Char → Outcome Value
  | none => .ok v
  | some 's' => .ok v.display
  | some 'r' => .ok v.literal
  | some 'a' => .ok (asciiOnly v.literal)
  | some c =>
    malformed ("Unknown conversion specifier " ++ if c.toNat = 127 then "\\x7f" else Layout.shownChar c)

def fillChars (vars : Entries) : Nat → Nat → Chars → Outcome Chars
  | 0, _, _ => malformed "Max string recursion exceeded"
  | _, 0, _ => .ok []
  | depth + 1, fuel + 1, s => do
    let plain := fun (c : Char) => c != '\x7b' && c != '\x7d'
    let literal := s.takeWhile plain
    match s.dropWhile plain with
    | [] => return literal
    | c :: rest =>
      if rest.head? = some c then return literal ++ c :: (← fillChars vars (depth + 1) fuel (rest.drop 1))
      refuse (rest.isEmpty || c == '\x7d') ("Single '" ++ c.toString ++ "' encountered in format string")
      let (field, rest) ← readField rest
      let v ← convert (← lookUp vars field.name) field.conversion
      let format ← if field.format.contains '\x7b' then fillChars vars depth fuel field.format
        else pure field.format
      let shown ← v.set format
      return literal ++ shown.toList ++ (← fillChars vars (depth + 1) fuel rest)

def fill (template : String) (vars : Entries) : Outcome String := do
  return String.ofList (← fillChars vars 2 (template.length + 1) template.toList)

end CodeAudit.Template

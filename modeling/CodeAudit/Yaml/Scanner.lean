import CodeAudit.Json

/-! The tokens of a YAML text, and the tree of the text before its scalars are understood: every
node has a tag and the place where it starts. -/

namespace CodeAudit.Yaml

structure Mark where
  line : Nat
  column : Nat
deriving DecidableEq

inductive TokenKind where
  | streamEnd
  | version (major : Nat)
  | handle (name meaning : String)
  | directive
  | documentStart
  | documentEnd
  | blockSequenceStart
  | blockMappingStart
  | blockEnd
  | flowSequenceStart
  | flowSequenceEnd
  | flowMappingStart
  | flowMappingEnd
  | blockEntry
  | flowEntry
  | key
  | value
  | alias (name : String)
  | anchor (name : String)
  | tag (handle : Option String) (suffix : String)
  | scalar (text : String) (plain : Bool)
deriving DecidableEq

structure Token where
  kind : TokenKind
  mark : Mark

def Token.stop (t : Token) : Mark := { t.mark with column := t.mark.column + 1 }

def TokenKind.name : TokenKind → String
  | .streamEnd => "<stream end>"
  | .version .. | .handle .. | .directive => "<directive>"
  | .documentStart => "<document start>"
  | .documentEnd => "<document end>"
  | .blockSequenceStart => "<block sequence start>"
  | .blockMappingStart => "<block mapping start>"
  | .blockEnd => "<block end>"
  | .flowSequenceStart => "["
  | .flowSequenceEnd => "]"
  | .flowMappingStart => "\x7b"
  | .flowMappingEnd => "\x7d"
  | .blockEntry => "-"
  | .flowEntry => ","
  | .key => "?"
  | .value => ":"
  | .alias _ => "<alias>"
  | .anchor _ => "<anchor>"
  | .tag .. => "<tag>"
  | .scalar .. => "<scalar>"

structure Complaint where
  stage : MarkupStage
  context : Option (String × Mark) := none
  problem : String
  mark : Mark
  noChar : Option Fault := none

def Mark.text (m : Mark) (file : String) : String :=
  "  in \"" ++ file ++ "\", line " ++ natText (m.line + 1) ++ ", column " ++ natText (m.column + 1)

def Complaint.text (c : Complaint) (file : String) : String :=
  let context := match c.context with
    | none => []
    | some (words, m) => words :: (if m = c.mark then [] else [m.text file])
  "\n".intercalate (context ++ [c.problem, c.mark.text file])

def Complaint.toFault (c : Complaint) (file : String) : Fault := c.noChar.getD (.badMarkup c.stage (c.text file))

inductive Node where
  | scalar (tag text : String) (mark : Mark)
  | sequence (tag : String) (items : List Node) (mark : Mark)
  | mapping (tag : String) (pairs : List (Node × Node)) (mark : Mark)

namespace Node

def tag : Node → String
  | .scalar tag .. => tag
  | .sequence tag .. => tag
  | .mapping tag .. => tag

def mark : Node → Mark
  | .scalar _ _ m => m
  | .sequence _ _ m => m
  | .mapping _ _ m => m

def shape : Node → String
  | .scalar .. => "scalar"
  | .sequence .. => "sequence"
  | .mapping .. => "mapping"

def withTag (tag : String) : Node → Node
  | .scalar _ text m => .scalar tag text m
  | .sequence _ items m => .sequence tag items m
  | .mapping _ pairs m => .mapping tag pairs m

end Node

def standardTag (name : String) : String := "tag:yaml.org,2002:" ++ name

def standardHandles : List (String × String) := [("!", "!"), ("!!", "tag:yaml.org,2002:")]

/-! Cuts a YAML text into tokens. A scalar that turns out to be a key gets its key token put in
front of it afterwards. -/

structure PossibleKey where
  token : Nat
  required : Bool
  index : Nat
  mark : Mark

structure Scanner where
  ahead : Chars
  index : Nat := 0
  line : Nat := 0
  column : Nat := 0
  flow : Int := 0
  indent : Int := -1
  indents : List Int := []
  keyAllowed : Bool := true
  keys : List (Int × PossibleKey) := []
  tokens : List Token := []

abbrev Scan := StateT Scanner (Except Complaint)

variable (c : Char)

def isBreak : Bool := c == '\n' || c == '\r' || c == '\x85' || c == '\u2028' || c == '\u2029'

def endChar : Char := '\x00'

def isGap : Bool := c == endChar || c == ' ' || isBreak c

def isSpaceOrEnd : Bool := isGap c || c == '\t'

def isStampBlank : Bool := c == ' ' || c == '\t'

def isInLine : Bool := c != endChar && !isBreak c

namespace Scanner

variable (s : Scanner)

def peek (n : Nat := 0) : Char := (s.ahead[n]?).getD endChar

def mark : Mark := ⟨s.line, s.column⟩

def step : Scanner :=
  match s.ahead with
  | [] => s
  | c :: rest =>
    let s := { s with ahead := rest, index := s.index + 1 }
    if (isBreak c && c != '\r') || (c == '\r' && rest.head? != some '\n') then
      { s with line := s.line + 1, column := 0 }
    else if c == '\ufeff' then s
    else { s with column := s.column + 1 }

def atSeparator : Bool :=
  (s.ahead.take 3 == ['-', '-', '-'] || s.ahead.take 3 == ['.', '.', '.']) && isSpaceOrEnd (s.peek 3)

def startsPlain : Bool :=
  let c := s.peek
  let signs := "-?:,[]\x7b\x7d#&*!|>'\"%@\x60".toList
  (!isSpaceOrEnd c && !signs.contains c) ||
    (!isSpaceOrEnd (s.peek 1) && (c == '-' || (s.flow = 0 && (c == '?' || c == ':'))))

def ready : Nat := s.keys.foldl (fun n (_, k) => min n k.token) s.tokens.length

end Scanner

def look (n : Nat := 0) : Scan Char := return (← get).peek n

def here : Scan Mark := return (← get).mark

def fuel : Scan Nat := return (← get).ahead.length + 1

def forward (n : Nat) : Scan Unit := modify (Nat.repeat Scanner.step n)

def take (p : Char → Bool) : Scan Chars := do
  let run := (← get).ahead.takeWhile p
  forward run.length
  return run

def skip (p : Char → Bool) : Scan Unit := discard (take p)

def lineBreak : Scan (Option Char) := do
  let s ← get
  let c := s.peek
  if !isBreak c then return none
  forward (if c == '\r' && s.peek 1 == '\n' then 2 else 1)
  return some (if c == '\u2028' || c == '\u2029' then c else '\n')

def push (kind : TokenKind) (m : Mark) : Scan Unit := modify fun s => { s with tokens := s.tokens ++ [⟨kind, m⟩] }

def single (kind : TokenKind) : Scan Unit := do
  push kind (← here)
  forward 1

def allowKey (keyAllowed : Bool) : Scan Unit := modify ({ · with keyAllowed })

section

variable {α : Type} (work : String) (start : Mark)

def complain (problem : String) : Scan α := do
  throw ⟨.scanner, some ("while " ++ work, start), problem, ← here, none⟩

def lack (wanted : String) : Scan α := do
  complain work start ("expected " ++ wanted ++ ", but found " ++ quoted (← look).toString)

end

def skipComment : Scan Unit := do
  skip (· == ' ')
  if (← look) == '#' then skip isInLine

def toNextToken : Nat → Scan Unit
  | 0 => return ()
  | fuel + 1 => do
    skipComment
    if (← lineBreak).isSome then
      if (← get).flow = 0 then allowKey true
      toNextToken fuel

def noColon (k : PossibleKey) : Scan Unit := complain "scanning a simple key" k.mark "could not find expected ':'"

def dropStaleKeys : Scan Unit := do
  let s ← get
  let isStale := fun (k : PossibleKey) => k.mark.line != s.line || 1024 < s.index - k.index
  if let some (_, k) := s.keys.find? fun (_, k) => isStale k && k.required then noColon k
  set { s with keys := s.keys.filter fun (_, k) => !isStale k }

def forgetKey : Scan Unit := modify fun s => { s with keys := s.keys.filter fun e => e.1 != s.flow }

def dropKey : Scan Unit := do
  let s ← get
  if let some k := s.keys.lookup s.flow then
    if k.required then noColon k
    forgetKey

def saveKey : Scan Unit := do
  let s ← get
  if s.keyAllowed then
    dropKey
    modify fun t => { t with
      keys := (s.flow, ⟨s.tokens.length, s.flow = 0 && s.indent = s.column, s.index, s.mark⟩) :: t.keys }

def unwind (column : Int) : Nat → Scan Unit
  | 0 => return ()
  | fuel + 1 => do
    let s ← get
    if s.flow = 0 && column < s.indent then
      push .blockEnd s.mark
      modify ({ · with indent := s.indents.headD (-1), indents := s.indents.drop 1 })
      unwind column fuel

def unwindTo (column : Int) : Scan Unit := do unwind column ((← get).indents.length + 1)

def indentTo (column : Int) : Scan Bool := do
  let s ← get
  if s.flow ≠ 0 || column ≤ s.indent then return false
  set { s with indents := s.indent :: s.indents, indent := column }
  return true

def flowMark (kind : TokenKind) (deeper : Int) : Scan Unit := do
  if deeper = 1 then saveKey else dropKey
  single kind
  modify fun s => { s with flow := s.flow + deeper, keyAllowed := deeper = 1 }

def blockMark (what : String) (start kind : TokenKind) (keyAllowed : Bool) : Scan Unit := do
  let s ← get
  if s.flow = 0 && !s.keyAllowed then throw ⟨.scanner, none, what ++ " are not allowed here", s.mark, none⟩
  if ← indentTo s.column then push start s.mark
  allowKey keyAllowed
  dropKey
  single kind

def valueMark : Scan Unit := do
  let s ← get
  match s.keys.lookup s.flow with
  | some k =>
    forgetKey
    let opened := if ← indentTo k.mark.column then [⟨TokenKind.blockMappingStart, k.mark⟩] else []
    modify ({ · with
      tokens := s.tokens.take k.token ++ opened ++ ⟨.key, k.mark⟩ :: s.tokens.drop k.token, keyAllowed := false })
    single .value
  | none => blockMark "mapping values" .blockMappingStart .value (s.flow = 0)

def folded (first : Char) (breaks : Chars) : Chars :=
  (if first != '\n' then [first] else if breaks.isEmpty then [' '] else []) ++ breaks

def plainBreaks : Nat → Scan (Option Chars)
  | 0 => return some []
  | fuel + 1 => do
    skip (· == ' ')
    match ← lineBreak with
    | none => return some []
    | some c =>
      if (← get).atSeparator then return none
      return (← plainBreaks fuel).map (c :: ·)

def plainSpaces : Scan Chars := do
  let blanks ← take (· == ' ')
  match ← lineBreak with
  | none => return blanks
  | some c =>
    allowKey true
    if (← get).atSeparator then return []
    return ((← plainBreaks (← fuel)).map (folded c)).getD []

def plainRun (inFlow : Bool) : Chars → Chars
  | [] => []
  | c :: rest =>
    let next := rest.headD endChar
    let stops := isSpaceOrEnd c ||
      (c == ':' && (isSpaceOrEnd next || (inFlow && [',', '[', ']', '\x7b', '\x7d'].contains next))) ||
      (inFlow && [',', '?', '[', ']', '\x7b', '\x7d'].contains c)
    if stops then [] else c :: plainRun inFlow rest

def plainRest (indent : Int) (text spaces : Chars) : Nat → Scan Chars
  | 0 => return text
  | fuel + 1 => do
    let s ← get
    let piece := if s.peek == '#' then [] else plainRun (s.flow != 0) s.ahead
    if piece.isEmpty then return text
    let text := text ++ spaces ++ piece
    allowKey false
    forward piece.length
    let spaces ← plainSpaces
    let s ← get
    if spaces.isEmpty || s.peek == '#' || (s.flow = 0 && s.column < indent) then return text
    plainRest indent text spaces fuel

def property (read : Scan TokenKind) : Scan Unit := do
  saveKey
  let start ← here
  allowKey false
  push (← read) start

def scalarOf (plain : Bool) (text : Chars) : TokenKind := .scalar (String.ofList text) plain

def plain : Scan TokenKind := do return scalarOf true (← plainRest ((← get).indent + 1) [] [] (← fuel))

def escapeOf? : Char → Option Char
  | '0' => some '\x00'
  | 'a' => some '\x07'
  | 'b' => some '\x08'
  | 't' | '\t' => some '\t'
  | 'n' => some '\n'
  | 'v' => some '\x0b'
  | 'f' => some '\x0c'
  | 'r' => some '\r'
  | 'e' => some '\x1b'
  | 'N' => some '\x85'
  | '_' => some '\xa0'
  | 'L' => some '\u2028'
  | 'P' => some '\u2029'
  | c => if " \"\\/".toList.contains c then some c else none

def hexLength? : Char → Option Nat
  | 'x' => some 2
  | 'u' => some 4
  | 'U' => some 8
  | _ => none

def breaksAfter (skip : Scan Unit) : Nat → Scan Chars
  | 0 => return []
  | fuel + 1 => do
    skip
    match ← lineBreak with
    | some c => return c :: (← breaksAfter skip fuel)
    | none => return []

def quotedBreaks (start : Mark) : Scan Chars := do
  breaksAfter (do
    if (← get).atSeparator then complain "scanning a quoted scalar" start "found unexpected document separator"
    skip isStampBlank) (← fuel)

def quotedSpaces (start : Mark) : Scan Chars := do
  let blanks ← take isStampBlank
  if (← look) == endChar then complain "scanning a quoted scalar" start "found unexpected end of stream"
  match ← lineBreak with
  | none => return blanks
  | some c => return folded c (← quotedBreaks start)

def codeFault? (code : Nat) : Option Fault :=
  if code < 0x110000 then none
  else if code < 0x80000000 then some (.badValue "chr() arg not in range(0x110000)")
  else some (.overflow "Python int too large to convert to C int")

def escaped (start : Mark) : Scan Chars := do
  let c ← look
  let work := "scanning a double-quoted scalar"
  match escapeOf? c, hexLength? c with
  | some r, _ =>
    forward 1
    return [r]
  | none, some count =>
    forward 1
    let digits := (← get).ahead.take count
    let wrong := (digits.find? fun d => (Json.hexValue? d).isNone).or
      (if digits.length < count then some endChar else none)
    if let some d := wrong then
      complain work start ("expected escape sequence of " ++ natText count ++
        " hexadecimal numbers, but found " ++ quoted d.toString)
    let code := digits.foldl (fun n d => n * 16 + (Json.hexValue? d).getD 0) 0
    if let some f := codeFault? code then throw ⟨.scanner, none, f.text, ← here, some f⟩
    forward count
    return [Char.ofNat code]
  | none, none =>
    if (← lineBreak).isSome then quotedBreaks start
    else complain work start ("found unknown escape character " ++ quoted c.toString)

def quotedRest (quote : Char) (start : Mark) (text : Chars) : Nat → Scan Chars
  | 0 => return text
  | fuel + 1 => do
    let text := text ++ (← take fun c => !isSpaceOrEnd c && c != '\'' && c != '"' && c != '\\')
    let c ← look
    let double := quote == '"'
    if !double && c == '\'' && (← look 1) == '\'' then
      forward 2
      quotedRest quote start (text ++ ['\'']) fuel
    else if c == quote then
      forward 1
      return text
    else if (double && c == '\'') || (!double && (c == '"' || c == '\\')) then
      forward 1
      quotedRest quote start (text ++ [c]) fuel
    else if double && c == '\\' then
      forward 1
      quotedRest quote start (text ++ (← escaped start)) fuel
    else quotedRest quote start (text ++ (← quotedSpaces start)) fuel

def quotedScalar : Scan TokenKind := do
  let quote ← look
  let start ← here
  forward 1
  return scalarOf false (← quotedRest quote start [] (← fuel))

def blockBreaks (indent : Nat) : Scan Chars := do
  breaksAfter (do
    let s ← get
    forward (min (indent - s.column) (s.ahead.takeWhile (· == ' ')).length)) (← fuel)

def blockIndentation (widest : Nat) : Nat → Scan (Chars × Nat)
  | 0 => return ([], widest)
  | fuel + 1 => do
    let blanks ← take (· == ' ')
    let column := (← get).column
    let widest := if blanks.isEmpty then widest else max widest column
    match ← lineBreak with
    | some c =>
      let (breaks, widest) ← blockIndentation widest fuel
      return (c :: breaks, widest)
    | none => return ([], widest)

def blockLines (isFolded : Bool) (indent : Nat) (text last breaks : Chars) : Nat → Scan (Chars × Chars × Chars)
  | 0 => return (text, last, breaks)
  | fuel + 1 => do
    let s ← get
    if s.column != indent || s.peek == endChar then return (text, last, breaks)
    let text := text ++ breaks ++ (← take isInLine)
    let last := (← lineBreak).toList
    let breaks ← blockBreaks indent
    let next ← get
    if next.column != indent || next.peek == endChar then return (text, last, breaks)
    let joined := if isFolded && last == ['\n'] && !isStampBlank s.peek && !isStampBlank next.peek then
        (if breaks.isEmpty then [' '] else [])
      else last
    blockLines isFolded indent (text ++ joined) last breaks fuel

def keepSign : Scan (Option Bool) := do
  let c ← look
  if c != '+' && c != '-' then return none
  forward 1
  return some (c == '+')

def widthDigit (start : Mark) : Scan (Option Nat) := do
  let c ← look
  if c == '0' then
    complain "scanning a block scalar" start "expected indentation indicator in the range 1-9, but found 0"
  if !c.isDigit then return none
  forward 1
  return some (c.toNat - 48)

def blockHeader (start : Mark) : Scan (Option Bool × Option Nat) := do
  let keep ← keepSign
  let width ← widthDigit start
  let keep ← if keep.isNone && width.isSome then keepSign else pure keep
  if !isGap (← look) then lack "scanning a block scalar" start "chomping or indentation indicators"
  return (keep, width)

def restOfLine (work : String) (start : Mark) : Scan Unit := do
  skipComment
  if isInLine (← look) then lack work start "a comment or a line break"
  discard lineBreak

def blockScalar (isFolded : Bool) : Scan Unit := do
  allowKey true
  dropKey
  let start ← here
  forward 1
  let (keep, width) ← blockHeader start
  restOfLine "scanning a block scalar" start
  let least := (max 1 ((← get).indent + 1)).toNat
  let (breaks, indent) ← match width with
    | none => do
      let (breaks, widest) ← blockIndentation 0 (← fuel)
      pure (breaks, max least widest)
    | some w => do pure (← blockBreaks (least + w - 1), least + w - 1)
  let (text, last, breaks) ← blockLines isFolded indent [] [] breaks (← fuel)
  push (scalarOf false (text ++ (if keep = some false then [] else last) ++
    (if keep = some true then breaks else []))) start

def isNameChar : Bool := c.isAlphanum || c == '-' || c == '_'

def anchorName : Scan String := do
  let start ← here
  let work := if (← look) == '*' then "scanning an alias" else "scanning an anchor"
  forward 1
  let name ← take isNameChar
  let c ← look
  if name.isEmpty || !(isSpaceOrEnd c || "?:,]\x7d%@\x60".toList.contains c) then
    lack work start "alphabetic or numeric character"
  return String.ofList name

def isAddressChar : Bool := c.isAlphanum || "-;/?:@&=+$,_.!~*'()[]%".toList.contains c

section

variable (work : String) (start : Mark)

def addressEscapes (bytes : List UInt8) : Nat → Scan (List UInt8)
  | 0 => return bytes
  | fuel + 1 => do
    if (← look) != '%' then return bytes
    forward 1
    let s ← get
    match Json.hexValue? s.peek, Json.hexValue? (s.peek 1) with
    | some a, some b =>
      forward 2
      addressEscapes (bytes ++ [UInt8.ofNat (16 * a + b)]) fuel
    | a, _ => complain work start ("expected URI escape sequence of 2 hexadecimal numbers, but found " ++
        quoted (String.ofList [s.peek (if a.isNone then 0 else 1)]))

def addressChars (text : Chars) : Nat → Scan Chars
  | 0 => return text
  | fuel + 1 => do
    let c ← look
    if c == '%' then
      let place ← here
      match Utf8.decode? (← addressEscapes work start [] (← Yaml.fuel)) with
      | .ok chars => addressChars (text ++ chars) fuel
      | .error words => throw ⟨.scanner, some ("while " ++ work, start), words, place, none⟩
    else if isAddressChar c then
      forward 1
      addressChars (text ++ [c]) fuel
    else return text

end

def address (name : String) (start : Mark) : Scan String := do
  let s ← get
  let text ← addressChars ("scanning a " ++ name) start [] (← fuel)
  if (← get).index = s.index then lack ("parsing a " ++ name) start "URI"
  return String.ofList text

def tagHandle (name : String) (start : Mark) : Scan String := do
  if (← look) != '!' then lack ("scanning a " ++ name) start "'!'"
  forward 1
  if (← look) == ' ' then return "!"
  let letters ← take isNameChar
  if (← look) != '!' then lack ("scanning a " ++ name) start "'!'"
  forward 1
  return String.ofList ('!' :: letters ++ ['!'])

def tagToken : Scan TokenKind := do
  let start ← here
  let next ← look 1
  let kind ← (do
    if next == '<' then
      forward 2
      let suffix ← address "tag" start
      if (← look) != '>' then lack "parsing a tag" start "'>'"
      forward 1
      return TokenKind.tag none suffix
    else if isSpaceOrEnd next then
      forward 1
      return TokenKind.tag none "!"
    else
      let word := ((← get).ahead.drop 1).takeWhile (!isGap ·)
      let handle ← if word.contains '!' then tagHandle "tag" start else do
        forward 1
        pure "!"
      return TokenKind.tag (some handle) (← address "tag" start))
  if !isGap (← look) then lack "scanning a tag" start "' '"
  return kind

section

variable (start : Mark)

def lackInDirective {α : Type} (wanted : String) : Scan α := lack "scanning a directive" start wanted

def versionPart : Scan Nat := do
  let digits ← take Char.isDigit
  if digits.isEmpty then lackInDirective start "a digit"
  return Json.digitsValue digits

def versionNumber : Scan TokenKind := do
  skip (· == ' ')
  let major ← versionPart start
  if (← look) != '.' then lackInDirective start "a digit or '.'"
  forward 1
  let _ ← versionPart start
  if !isGap (← look) then lackInDirective start "a digit or ' '"
  return .version major

def handleMeaning : Scan TokenKind := do
  skip (· == ' ')
  let handle ← tagHandle "directive" start
  if (← look) != ' ' then lackInDirective start "' '"
  skip (· == ' ')
  let meaning ← address "directive" start
  if !isGap (← look) then lackInDirective start "' '"
  return .handle handle meaning

end

def directive : Scan Unit := do
  unwindTo (-1)
  dropKey
  let start ← here
  allowKey false
  forward 1
  let name ← take isNameChar
  if name.isEmpty || !isGap (← look) then lackInDirective start "alphabetic or numeric character"
  let kind ← match String.ofList name with
    | "YAML" => versionNumber start
    | "TAG" => handleMeaning start
    | _ => do
      skip isInLine
      pure .directive
  restOfLine "scanning a directive" start
  push kind start

def separator (kind : TokenKind) : Scan Unit := do
  unwindTo (-1)
  dropKey
  push kind (← here)
  allowKey false
  forward 3

/-- Reads one more token. At the end of the text there is none. -/
def next : Scan Bool := do
  toNextToken (← fuel)
  dropStaleKeys
  unwindTo (← get).column
  let s ← get
  let c := s.peek
  let blankNext := isSpaceOrEnd (s.peek 1)
  if c == endChar then
    unwindTo (-1)
    dropKey
    push .streamEnd (← here)
    return false
  if c == '%' && s.column = 0 then directive
  else if s.column = 0 && s.atSeparator then separator (if c == '-' then .documentStart else .documentEnd)
  else if c == '[' then flowMark .flowSequenceStart 1
  else if c == '\x7b' then flowMark .flowMappingStart 1
  else if c == ']' then flowMark .flowSequenceEnd (-1)
  else if c == '\x7d' then flowMark .flowMappingEnd (-1)
  else if c == ',' then
    allowKey true
    dropKey
    single .flowEntry
  else if c == '-' && blankNext then blockMark "sequence entries" .blockSequenceStart .blockEntry true
  else if c == '?' && (s.flow != 0 || blankNext) then
    blockMark "mapping keys" .blockMappingStart .key (s.flow = 0)
  else if c == ':' && (s.flow != 0 || blankNext) then valueMark
  else if c == '*' then property (.alias <$> anchorName)
  else if c == '&' then property (.anchor <$> anchorName)
  else if c == '!' then property tagToken
  else if (c == '|' || c == '>') && s.flow = 0 then blockScalar (c == '>')
  else if c == '\'' || c == '"' then property quotedScalar
  else if s.startsPlain then property plain
  else
    complain "scanning for the next token" s.mark
      ("found character " ++ quoted c.toString ++ " that cannot start any token")
  dropStaleKeys
  return true

/-- All tokens up to the end or to a complaint. Tokens that may still be keys when the complaint is
made are not handed on. -/
def scanAll : Nat → Scanner → List Token × Option Complaint
  | 0, s => (s.tokens, none)
  | fuel + 1, s =>
    match next.run s with
    | .error c => (s.tokens.take s.ready, some c)
    | .ok (true, s) => scanAll fuel s
    | .ok (false, s) => (s.tokens, none)

def isAcceptable : Bool :=
  c == '\t' || c == '\n' || c == '\r' || ('\x20' ≤ c && c ≤ '\x7e') || c == '\x85' ||
    ('\xa0' ≤ c && c ≤ '\ufffd') || 0x10000 ≤ c.toNat

def unacceptable? (file : String) (chars : Chars) : Option Fault := do
  let place ← chars.findIdx? fun c => !isAcceptable c
  let code := ((chars[place]?).map Char.toNat).getD 0
  some (.badMarkup .reader ("unacceptable character #x" ++ hexText 4 code ++
    ": special characters are not allowed\n  in \"" ++ file ++ "\", position " ++ natText place))

def scan (chars : Chars) : List Token × Option Complaint :=
  let chars := if chars.head? = some '\ufeff' then chars.drop 1 else chars
  scanAll (chars.length + 2) { ahead := chars }

end CodeAudit.Yaml

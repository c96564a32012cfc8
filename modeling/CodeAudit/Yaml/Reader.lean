import CodeAudit.Number.Written
import CodeAudit.Pack
import CodeAudit.Time.DateTime
import CodeAudit.Yaml.Scanner

/-! What a scalar of a YAML text means. `plainTag` finds the tag of a plain scalar from its form,
and `scalarValue` reads a scalar as its tag says. -/

namespace CodeAudit.Yaml

def truthWord? (s : String) : Option Bool :=
  if ["yes", "true", "on"].contains s then some true
  else if ["no", "false", "off"].contains s then some false
  else none

variable (s : Chars)

def isWordForm : Bool :=
  s.all Char.isLower || s.all Char.isUpper ||
    ((s.take 1).all Char.isUpper && (s.drop 1).all Char.isLower)

def isNullWord (s : String) : Bool := ["~", "null", "Null", "NULL", ""].contains s

def isDigitOrScore (c : Char) : Bool := c.isDigit || c == '_'

def isSixtieth : Chars → Bool
  | [c] => c.isDigit
  | [c, d] => '0' ≤ c && c ≤ '5' && d.isDigit
  | _ => false

def isNatural : Bool :=
  match s with
  | '0' :: 'b' :: rest => !rest.isEmpty && rest.all fun c => c == '0' || c == '1' || c == '_'
  | '0' :: 'x' :: rest => !rest.isEmpty && rest.all fun c => isDigitOrScore c || ('a' ≤ c.toLower && c.toLower ≤ 'f')
  | '0' :: rest => rest.all fun c => ('0' ≤ c && c ≤ '7') || c == '_'
  | c :: _ =>
    c.isDigit && match Chars.splitOn ':' s with
      | first :: parts => first.all isDigitOrScore && parts.all isSixtieth
      | [] => false
  | [] => false

def isExponent : Chars → Bool
  | [] => true
  | e :: sign :: digits =>
    (e == 'e' || e == 'E') && (sign == '+' || sign == '-') && !digits.isEmpty && digits.all Char.isDigit
  | _ => false

/-- The form of a number with a point and perhaps an exponent; or parts of sixty of which the last
has a point. -/
def isPointed (signed : Bool) (s : Chars) : Bool :=
  let left := s.takeWhile fun c => c != '.'
  match s.drop left.length with
  | '.' :: rest =>
    let right := rest.takeWhile isDigitOrScore
    let exponent := rest.drop right.length
    match Chars.splitOn ':' left with
    | [[]] => !signed && (right.head?.map Char.isDigit).getD false && isExponent exponent
    | [whole] => (whole.head?.map Char.isDigit).getD false && whole.all isDigitOrScore && isExponent exponent
    | first :: parts =>
      (first.head?.map Char.isDigit).getD false && first.all isDigitOrScore && parts.all isSixtieth &&
        exponent.isEmpty
    | [] => false
  | _ => false

def isFloat : Bool :=
  let (_, rest) := takeSign s
  let signed := rest.length < s.length
  let word := String.ofList rest
  [".inf", ".Inf", ".INF"].contains word || (!signed && [".nan", ".NaN", ".NAN"].contains word) ||
    isPointed signed rest

structure Stamp where
  year : Chars
  month : Chars
  day : Chars
  clock : Option (Chars × Chars × Chars × Chars) := none
  zone : Option (Option Char × Chars × Chars) := none

def takeDigits (least most : Nat) (s : Chars) : Option (Chars × Chars) :=
  let ds := (s.take most).takeWhile Char.isDigit
  if ds.length < least then none else some (ds, s.drop ds.length)

def takeSame (c : Char) : Chars → Option Chars
  | d :: rest => if c = d then some rest else none
  | [] => none

def readZone : Option (Option (Option Char × Chars × Chars)) :=
  match s.dropWhile isStampBlank with
  | [] => if s.isEmpty then some none else none
  | ['Z'] => some (some (none, [], []))
  | sign :: rest =>
    if sign != '+' && sign != '-' then none
    else do
      let (hour, rest) ← takeDigits 1 2 rest
      if rest.isEmpty then return some (some sign, hour, [])
      let (minute, rest) ← takeDigits 2 2 (← takeSame ':' rest)
      if rest.isEmpty then return some (some sign, hour, minute) else none

def readStamp : Option Stamp := do
  let (year, rest) ← takeDigits 4 4 s
  let (month, rest) ← takeDigits 1 2 (← takeSame '-' rest)
  let (day, rest) ← takeDigits 1 2 (← takeSame '-' rest)
  if rest.isEmpty then return { year, month, day }
  let rest ← match rest with
    | 'T' :: rest | 't' :: rest => some rest
    | c :: rest => if isStampBlank c then some (rest.dropWhile isStampBlank) else none
    | [] => none
  let (hour, rest) ← takeDigits 1 2 rest
  let (minute, rest) ← takeDigits 2 2 (← takeSame ':' rest)
  let (second, rest) ← takeDigits 2 2 (← takeSame ':' rest)
  let (fraction, rest) := match rest with
    | '.' :: rest => (rest.takeWhile Char.isDigit, rest.dropWhile Char.isDigit)
    | rest => ([], rest)
  return { year, month, day, clock := some (hour, minute, second, fraction), zone := ← readZone rest }

def isStamp : Bool :=
  match readStamp s with
  | some stamp => stamp.clock.isSome || (stamp.month.length = 2 && stamp.day.length = 2)
  | none => false

variable (text : String)

def lineOf : Chars :=
  let s := text.toList
  if s.getLast? = some '\n' then s.dropLast else s

def plainTag : String :=
  let s := lineOf text
  let word := String.ofList s
  standardTag (
    if (truthWord? (String.ofList (s.map Char.toLower))).isSome && isWordForm s then "bool"
    else if isFloat s then "float"
    else if isNatural (takeSign s).2 then "int"
    else if word = "<<" then "merge"
    else if isNullWord word then "null"
    else if isStamp s then "timestamp"
    else if word = "=" then "value"
    else if ["!", "&", "*"].contains word then "yaml"
    else "str")

def sixties {α : Type} (add : α → α → α) (scale : Nat → α → α) (zero : α) (parts : List α) : α :=
  (parts.reverse.zipIdx.map fun (x, i) => scale (Nat.pow 60 i) x).foldl add zero

def emptyText : Fault := .badIndex "string index out of range"

def signed : Outcome (Bool × Chars) := if s.isEmpty then .error emptyText else .ok (takeSign s)

def intValue : Outcome Value := do
  let (negative, s) ← signed (text.toList.filter (· != '_'))
  let n ← match s with
    | ['0'] => pure 0
    | '0' :: 'b' :: rest => intOfTextIn 2 (String.ofList rest)
    | '0' :: 'x' :: rest => intOfTextIn 16 (String.ofList rest)
    | '0' :: _ => intOfTextIn 8 (String.ofList s)
    | [] => throw emptyText
    | _ =>
      if s.contains ':' then
        let parts ← (Chars.splitOn ':' s).mapM fun p => intOfText (String.ofList p)
        pure (sixties (· + ·) (fun k x => (k : Int) * x) 0 parts)
      else intOfText (String.ofList s)
  return .int (if negative then -n else n)

def floatValue : Outcome Value := do
  let (negative, s) ← signed ((lowerText text).toList.filter (· != '_'))
  let x ← match String.ofList s with
    | ".inf" => pure (1.0 / 0.0 : Float)
    | ".nan" => pure (0.0 / 0.0 : Float)
    | word =>
      if s.contains ':' then
        let parts ← (Chars.splitOn ':' s).mapM fun p => floatOfText (String.ofList p)
        pure (sixties (· + ·) (fun k x => x * Float.ofNat k) 0.0 parts)
      else floatOfText word
  return .float (if negative then -1.0 * x else x)

def dateValue (day : Int) : Value :=
  let d := Time.Date.ofDays day
  let shown := d.text
  let inside := "datetime.date(" ++ Text.join ", " [intText d.year, natText d.month, natText d.day] ++ ")"
  .special ⟨"datetime.date", shown, inside, shown⟩

def momentValue (t : Time.DateTime) : Value :=
  let d := Time.Date.ofDays t.day
  let second := t.secondOfDay
  let micros := t.micros % 1000000
  let small := (if second % 60 = 0 && micros = 0 then [] else [natText (second % 60)]) ++
    (if micros = 0 then [] else [natText micros])
  let zone := match t.offset with
    | none => []
    | some 0 => ["tzinfo=datetime.timezone.utc"]
    | some n => ["tzinfo=datetime.timezone(" ++ Time.spanText n ++ ")"]
  let inside := Text.join ", " ([intText d.year, natText d.month, natText d.day, natText (second / 3600),
    natText (second / 60 % 60)] ++ small ++ zone)
  let answer := t.text
  let shown := String.ofList (answer.toList.map fun c => if c == 'T' then ' ' else c)
  .special ⟨"datetime.datetime", shown, "datetime.datetime(" ++ inside ++ ")", answer⟩

def digitsNumber : Nat := Json.digitsValue s

def stampValue : Outcome Value := do
  match readStamp (lineOf text) with
  | none => throw (Value.lacks .null "groupdict")
  | some stamp =>
    let date := Time.RawDate.ofParts (digitsNumber stamp.year) (digitsNumber stamp.month)
      (digitsNumber stamp.day)
    match stamp.clock with
    | none => return dateValue (← date.check)
    | some (hour, minute, second, fraction) =>
      let micros := digitsNumber ((fraction.take 6) ++ List.replicate (6 - fraction.length) '0')
      let offset ← match stamp.zone with
        | none => pure none
        | some (none, _, _) => pure (some 0)
        | some (some sign, hours, minutes) =>
          let n : Int := ((digitsNumber hours * 3600 + digitsNumber minutes * 60) * 1000000 : Nat)
          let n := if sign == '-' then -n else n
          if Time.dayMicros ≤ n.natAbs then
            throw (.badValue ("offset must be a timedelta strictly between -timedelta(hours=24) and " ++
              "timedelta(hours=24), not " ++ Time.spanText n ++ "."))
          pure (some n)
      let day ← date.check
      let clock : Time.RawClock :=
        { hour := digitsNumber hour, minute := digitsNumber minute, second := digitsNumber second
          micros := micros }
      return momentValue { day := day, micros := ← clock.check, offset := offset }

def byteText (quote : Char) (b : UInt8) : String :=
  let c := Char.ofNat b.toNat
  if b < 128 then Quoted.escape quote c else Quoted.byNumber c

def bytesValue (bytes : List UInt8) : Value :=
  let quote := if bytes.contains 39 && !bytes.contains 34 then '"' else '\''
  let mark := String.ofList [quote]
  let shown := "b" ++ mark ++ String.join (bytes.map (byteText quote)) ++ mark
  .special ⟨"bytes", shown, shown, shown⟩

abbrev Built := Except Complaint

section

variable {α : Type}

def unbuilt (context : Option (String × Mark)) (problem : String) (m : Mark) : Built α :=
  .error ⟨.builder, context, problem, m, none⟩

def unmapped (start : Mark) (problem : String) (m : Mark) : Built α :=
  unbuilt (some ("while constructing a mapping", start)) problem m

end

variable (m : Mark)

def binaryValue : Built Value := do
  let s := text.toList
  match s.findIdx? fun c => 128 ≤ c.toNat with
  | some i =>
    let run := (s.drop i).takeWhile fun c => 128 ≤ c.toNat
    let place := match run with
      | [c] => "character '" ++ Quoted.byNumber c ++ "' in position " ++ natText i
      | _ => "characters in position " ++ natText i ++ "-" ++ natText (i + run.length - 1)
    unbuilt none ("failed to convert base64 data into ascii: 'ascii' codec can't encode " ++ place ++
      ": ordinal not in range(128)") m
  | none =>
    match Pack.Base64.decode s with
    | .ok bytes => return bytesValue bytes
    | .error words => unbuilt none ("failed to decode base64 data: " ++ words) m

def scalarValue? (tag : String) : Option (Built Value) := do
  let told := fun (r : Outcome Value) => r.mapError fun f => Complaint.mk .builder none "" m (some f)
  let name ← ["str", "null", "bool", "int", "float", "timestamp", "binary"].find? fun name => tag = standardTag name
  return match name with
    | "str" => .ok text
    | "null" => .ok .null
    | "bool" =>
      let word := lowerText text
      told (((truthWord? word).map Value.bool).elim (.error (.missingKey word)) .ok)
    | "int" => told (intValue text)
    | "float" => told (floatValue text)
    | "timestamp" => told (stampValue text)
    | _ => binaryValue text m

/-! Values from the tree of a YAML text. Collections are filled level by level; `check` finds the
complaint that this order meets first. -/

namespace Node

def isA (n : Node) (name : String) : Bool := n.tag = standardTag name

variable (n : Node)

def isFilled : Bool := ["seq", "map", "set", "omap", "pairs"].any n.isA

mutual

def scalarOf : Node → Built String
  | .scalar _ text _ => .ok text
  | .sequence _ _ m => unbuilt none "expected a scalar node, but found sequence" m
  | .mapping _ pairs m => scalarOfPairs m pairs

def scalarOfPairs (m : Mark) : List (Node × Node) → Built String
  | [] => unbuilt none "expected a scalar node, but found mapping" m
  | (k, v) :: rest => if k.isA "value" then v.scalarOf else scalarOfPairs m rest

end

def atOnce : Built Value := do
  if (scalarValue? "" n.mark n.tag).isNone then
    unbuilt none ("could not determine a constructor for the tag " ++ quoted n.tag) n.mark
  (scalarValue? (← n.scalarOf) n.mark n.tag).getD (.ok .null)

mutual

def merged (start : Mark) : List (Node × Node) → Built (List (Node × Node) × List (Node × Node))
  | [] => return ([], [])
  | (k, v) :: rest => do
    let more ← if !k.isA "merge" then pure [] else match v with
      | .mapping _ pairs m => (fun (more, kept) => more ++ kept) <$> merged m pairs
      | .sequence _ items _ => mergedAll start items
      | .scalar _ _ m => unmapped start "expected a mapping or list of mappings for merging, but found scalar" m
    let (front, own) ← merged start rest
    return (more ++ front, if k.isA "merge" then own
      else (if k.isA "value" then k.withTag (standardTag "str") else k, v) :: own)

def mergedAll (start : Mark) : List Node → Built (List (Node × Node))
  | [] => return []
  | .mapping _ pairs m :: rest => do
    let (more, kept) ← merged m pairs
    return (← mergedAll start rest) ++ more ++ kept
  | n :: _ => unmapped start ("expected a mapping for merging, but found " ++ n.shape) n.mark

end

def flatPairs (start : Mark) (pairs : List (Node × Node)) : Built (List (Node × Node)) := do
  let (front, own) ← merged start pairs
  return front ++ own

def checkMaking : Built Unit := if n.isFilled then .ok () else discard n.atOnce

def checkPair (context : String) (start : Mark) : Node → Built Unit
  | .mapping _ [(k, v)] _ => do
    k.checkMaking
    v.checkMaking
  | .mapping _ pairs m => unbuilt (some (context, start))
      ("expected a single mapping item, but found " ++ natText pairs.length ++ " items") m
  | n => unbuilt (some (context, start)) ("expected a mapping of length 1, but found " ++ n.shape) n.mark

def checkFilling : Built Unit := do
  let other := fun (context : Option (String × Mark)) (wanted : String) =>
    unbuilt context ("expected a " ++ wanted ++ ", but found " ++ n.shape) n.mark
  if n.isA "seq" then
    match n with
    | .sequence _ items _ => items.forM checkMaking
    | _ => other none "sequence node"
  else if n.isA "map" || n.isA "set" then
    match n with
    | .mapping _ pairs m =>
      for (k, v) in ← flatPairs m pairs do
        k.checkMaking
        if k.isFilled then unmapped m "found unhashable key" k.mark
        v.checkMaking
    | _ => other none "mapping node"
  else
    let context := if n.isA "omap" then "while constructing an ordered map" else "while constructing pairs"
    match n with
    | .sequence _ items m => items.forM (checkPair context m)
    | _ => other (some (context, n.mark)) "sequence"

def pairNodes : Node → List Node
  | .mapping _ pairs _ => pairs.flatMap fun (k, v) => [k, v]
  | _ => []

def inner : List Node :=
  let below : List Node := match n with
    | .scalar .. => []
    | .sequence _ items _ => if n.isA "seq" then items else items.flatMap pairNodes
    | .mapping _ pairs m => ((flatPairs m pairs).toOption.getD []).flatMap fun (k, v) => [k, v]
  below.filter isFilled

def checkLevels : Nat → List Node → Built Unit
  | 0, _ => return ()
  | fuel + 1, nodes => do
    nodes.forM checkFilling
    if !nodes.isEmpty then checkLevels fuel (nodes.flatMap inner)

def check (depth : Nat) : Built Unit := do
  n.checkMaking
  if n.isFilled then checkLevels depth [n]

def valueTo : Nat → Node → Value
  | 0, _ => .null
  | fuel + 1, n =>
    if !n.isFilled then n.atOnce.toOption.getD .null
    else match n with
      | .scalar .. => .null
      | .sequence _ items _ =>
        if n.isA "seq" then .list (items.map (valueTo fuel))
        else .list (items.map fun n => .list (n.pairNodes.map (valueTo fuel)))
      | .mapping _ pairs m =>
        let made := ((flatPairs m pairs).toOption.getD []).map fun (k, v) => (valueTo fuel k, valueTo fuel v)
        let object := Value.ofPairs made
        if n.isA "set" then .list ((object.parts.toOption.getD []).mergeSort fun a b => a.display ≤ b.display)
        else object

def value (depth : Nat) : Built Value := do
  n.check depth
  return n.valueTo depth

end Node

/-! Reads a YAML text as a value by recursive descent; the depth of the calls is bounded by the
number of tokens. -/

structure Feed where
  tokens : List Token
  complaint : Option Complaint
  anchors : List (String × Node) := []
  handles : List (String × String) := standardHandles

abbrev Reading := StateT Feed (Except Complaint)

def peekToken : Reading Token := do
  let feed ← get
  match feed.tokens, feed.complaint with
  | t :: _, _ => return t
  | [], some c => throw c
  | [], none => return ⟨.streamEnd, ⟨0, 0⟩⟩

def takeToken : Reading Unit := do
  let _ ← peekToken
  modify fun feed => { feed with tokens := feed.tokens.drop 1 }

def nextIs (kinds : List TokenKind) : Reading Bool := do return kinds.contains (← peekToken).kind

def unexpected {α : Type} (context : String) (since : Mark) (words : String) : Reading α := do
  let t ← peekToken
  throw ⟨.parser, some (context, since), words ++ quoted t.kind.name, t.mark, none⟩

structure Properties where
  anchor : Option String := none
  tag : Option String := none
  mark : Option Mark := none

def tagOf (start m : Mark) (handle : Option String) (suffix : String) : Reading String := do
  let some h := handle | return suffix
  let some meaning := (← get).handles.lookup h
    | throw ⟨.parser, some ("while parsing a node", start), "found undefined tag handle " ++ quoted h, m, none⟩
  return meaning ++ suffix

def properties : Reading Properties := do
  let first ← peekToken
  match first.kind with
  | .anchor name =>
    takeToken
    let second ← peekToken
    let .tag handle suffix := second.kind | return { anchor := name, mark := first.mark }
    takeToken
    return { anchor := name, tag := ← tagOf first.mark second.mark handle suffix, mark := first.mark }
  | .tag handle suffix =>
    takeToken
    let anchor ← match (← peekToken).kind with
      | .anchor name => do
        takeToken
        pure (some name)
      | _ => pure none
    return { anchor, tag := ← tagOf first.mark first.mark handle suffix, mark := first.mark }
  | _ => return {}

variable (p : Properties)

def Properties.tagOr (name : String) : String :=
  match p.tag with
  | none | some "!" => standardTag name
  | some tag => tag

def Properties.scalarTag (text : String) (plain : Bool) : String :=
  match p.tag with
  | none => if plain then plainTag text else standardTag "str"
  | some "!" => plainTag text
  | some tag => tag

def checkAnchor (start : Mark) : Reading Unit := do
  let some name := p.anchor | return ()
  if let some n := (← get).anchors.lookup name then
    throw ⟨.composer, some ("found duplicate anchor " ++ quoted name ++ "; first occurrence", n.mark),
      "second occurrence", start, none⟩

def named (n : Node) : Reading Node := do
  if let some name := p.anchor then
    modify fun feed => { feed with anchors := (name, n) :: feed.anchors.filter (·.1 != name) }
  return n

def emptyNode (m : Mark) : Node := .scalar (plainTag "") "" m

def flowNode (isMap : Bool) (tag : String) (start : Mark) (entries : List (Node × Node)) : Node :=
  if isMap then .mapping tag entries start else .sequence tag (entries.map (·.1)) start

mutual

def node (block bare : Bool) : Nat → Reading Node
  | 0 => return emptyNode ⟨0, 0⟩
  | fuel + 1 => do
    let first ← peekToken
    match first.kind with
    | .alias name =>
      takeToken
      match (← get).anchors.lookup name with
      | some n => return n
      | none => throw ⟨.composer, none, "found undefined alias " ++ quoted name, first.mark, none⟩
    | _ =>
      let p ← properties
      let t ← peekToken
      let start := p.mark.getD t.mark
      let empty := noContent p start block
      -- A collection has its name from its start on.
      let opens := fun (name : String) (items : String → Reading Node) => do
        checkAnchor p start
        let tag := p.tagOr name
        let _ ← named p (.sequence tag [] start)
        if t.kind ≠ .blockEntry then takeToken
        named p (← items tag)
      match t.kind with
      | .scalar text plain =>
        takeToken
        checkAnchor p start
        named p (.scalar (p.scalarTag text plain) text start)
      | .flowSequenceStart => opens "seq" fun tag => flowEntries false tag start t.mark [] fuel
      | .flowMappingStart => opens "map" fun tag => flowEntries true tag start t.mark [] fuel
      | .blockSequenceStart =>
        if block then opens "seq" fun tag => blockItems false tag start t.mark [] fuel else empty
      | .blockMappingStart => if block then opens "map" fun tag => blockPairs tag start t.mark [] fuel else empty
      | .blockEntry => if bare then opens "seq" fun tag => blockItems true tag start start [] fuel else empty
      | _ => empty
where
  noContent (p : Properties) (start : Mark) (block : Bool) : Reading Node := do
    if p.anchor.isSome || p.tag.isSome then
      checkAnchor p start
      named p (.scalar (p.scalarTag "" true) "" start)
    else
      unexpected (if block then "while parsing a block node" else "while parsing a flow node") start
        "expected the node content, but found "

def nodeUnless (kinds : List TokenKind) (block bare : Bool) (m : Mark) : Nat → Reading Node
  | 0 => return emptyNode m
  | fuel + 1 => do if ← nextIs kinds then return emptyNode m else node block bare fuel

def blockItems (bare : Bool) (tag : String) (start since : Mark) (items : List Node) : Nat → Reading Node
  | 0 => return .sequence tag items start
  | fuel + 1 => do
    let t ← peekToken
    if t.kind = .blockEntry then
      takeToken
      let stops := [TokenKind.blockEntry, .blockEnd] ++ if bare then [.key, .value] else []
      let v ← nodeUnless stops true false t.stop fuel
      blockItems bare tag start since (items ++ [v]) fuel
    else
      if !bare then
        if t.kind ≠ .blockEnd then
          unexpected "while parsing a block collection" since "expected <block end>, but found "
        takeToken
      return .sequence tag items start

def blockPairs (tag : String) (start since : Mark) (pairs : List (Node × Node)) : Nat → Reading Node
  | 0 => return .mapping tag pairs start
  | fuel + 1 => do
    let t ← peekToken
    let stops := [TokenKind.key, .value, .blockEnd]
    match t.kind with
    | .key =>
      takeToken
      let k ← nodeUnless stops true true t.stop fuel
      let v ← valueAfter stops true fuel
      blockPairs tag start since (pairs ++ [(k, v)]) fuel
    | .blockEnd =>
      takeToken
      return .mapping tag pairs start
    | _ => unexpected "while parsing a block mapping" since "expected <block end>, but found "

def valueAfter (stops : List TokenKind) (block : Bool) : Nat → Reading Node
  | 0 => return emptyNode ⟨0, 0⟩
  | fuel + 1 => do
    let t ← peekToken
    match t.kind with
    | .value =>
      takeToken
      nodeUnless stops block block t.stop fuel
    | _ => return emptyNode t.mark

def flowEntries (isMap : Bool) (tag : String) (start since : Mark) (entries : List (Node × Node)) : Nat → Reading Node
  | 0 => return flowNode isMap tag start entries
  | fuel + 1 => do
    let stop := if isMap then .flowMappingEnd else .flowSequenceEnd
    if !entries.isEmpty && !(← nextIs [stop]) then
      if ← nextIs [.flowEntry] then takeToken
      else
        unexpected ("while parsing a flow " ++ if isMap then "mapping" else "sequence") since
          ("expected ',' or '" ++ stop.name ++ "', but got ")
    let t ← peekToken
    if t.kind = stop then
      takeToken
      return flowNode isMap tag start entries
    let entry ← if t.kind = .key then do
        takeToken
        let k ← nodeUnless [.value, .flowEntry, stop] false false t.stop fuel
        let v ← valueAfter [.flowEntry, stop] false fuel
        pure (if isMap then (k, v) else (.mapping (standardTag "map") [(k, v)] t.mark, k))
      else do
        let k ← node false false fuel
        pure (k, emptyNode (← peekToken).mark)
    flowEntries isMap tag start since (entries ++ [entry]) fuel

end

def skipTokens (kind : TokenKind) : Nat → Reading Unit
  | 0 => return ()
  | fuel + 1 => do
    if ← nextIs [kind] then
      takeToken
      skipTokens kind fuel

def directives (version : Bool) (handles : List (String × String)) : Nat → Reading Unit
  | 0 => return ()
  | fuel + 1 => do
    let t ← peekToken
    match t.kind with
    | .version major =>
      takeToken
      if version then throw ⟨.parser, none, "found duplicate YAML directive", t.mark, none⟩
      if major ≠ 1 then
        throw ⟨.parser, none, "found incompatible YAML document (version 1.* is required)", t.mark, none⟩
      directives true handles fuel
    | .handle name meaning =>
      takeToken
      if (handles.lookup name).isSome then
        throw ⟨.parser, none, "duplicate tag handle " ++ quoted name, t.mark, none⟩
      directives version ((name, meaning) :: handles) fuel
    | .directive =>
      takeToken
      directives version handles fuel
    | _ => modify fun feed => { feed with handles := handles ++ standardHandles }

def documentStart (fuel : Nat) : Reading Unit := do
  directives false [] fuel
  let t ← peekToken
  match t.kind with
  | .documentStart => takeToken
  | k => throw ⟨.parser, none, "expected '<document start>', but found " ++ quoted k.name, t.mark, none⟩

def TokenKind.startsDocument : TokenKind → Bool
  | .version _ | .handle .. | .directive | .documentStart => true
  | _ => false

def document (fuel : Nat) : Reading (Option Node) := do
  let first ← peekToken
  if first.kind = .streamEnd then return none
  let n ← if first.kind.startsDocument then
      documentStart fuel
      let t ← peekToken
      if t.kind.startsDocument || t.kind = .documentEnd || t.kind = .streamEnd then
        pure (emptyNode t.mark)
      else node true false fuel
    else node true false fuel
  skipTokens .documentEnd fuel
  let t ← peekToken
  if t.kind = .streamEnd then return some n
  documentStart fuel
  throw ⟨.composer, some ("expected a single document in the stream", n.mark),
    "but found another document", t.mark, none⟩

def maxLevels : Nat := 480

mutual

def Node.levels : Node → Nat
  | .scalar .. => 1
  | .sequence _ items _ => levelsOf items + 1
  | .mapping _ pairs _ => levelsOfPairs pairs + 1

def levelsOf : List Node → Nat
  | [] => 0
  | n :: rest => max n.levels (levelsOf rest)

def levelsOfPairs : List (Node × Node) → Nat
  | [] => 0
  | (k, v) :: rest => max (max k.levels v.levels) (levelsOfPairs rest)

end

def parse (file text : String) : Outcome Value :=
  let chars := Chars.unifyNewlines text.toList
  match unacceptable? file chars with
  | some f => .error f
  | none =>
    let (tokens, complaint) := scan chars
    match (document (4 * tokens.length + 8)).run ⟨tokens, complaint, [], standardHandles⟩ with
    | .ok (none, _) => .ok .null
    | .ok (some n, _) =>
      if maxLevels < n.levels then .error (.tooDeep "maximum recursion depth exceeded")
      else (n.value (n.levels + 1)).mapError (·.toFault file)
    | .error c => .error (c.toFault file)

end CodeAudit.Yaml

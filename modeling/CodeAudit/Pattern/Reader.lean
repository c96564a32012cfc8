import CodeAudit.Number.Written
import CodeAudit.Pattern.Basic

/-! Reads patterns in the customary notation. A text that is no pattern has a fault. -/

namespace CodeAudit.Pattern

structure Span where
  least : Nat
  most : Option Nat

namespace Span

def exactly (n : Nat) : Span := ⟨n, .some n⟩

def add (a b : Span) : Span := ⟨a.least + b.least, do return (← a.most) + (← b.most)⟩

def either (a b : Span) : Span := ⟨min a.least b.least, do return max (← a.most) (← b.most)⟩

def times (least : Nat) (most : Option Nat) (a : Span) : Span :=
  ⟨a.least * least,
    if a.most = .some 0 then .some 0
    else do return (← a.most) * (← most)⟩

end Span

def span (known : List (Nat × Span)) : Pattern → Span
  | .empty | .textStart | .lineStart | .textEnd | .lineEnd | .veryEnd | .boundary | .nonBoundary
  | .ahead _ _ | .behind _ _ _ => .exactly 0
  | .lit _ | .any | .set _ _ => .exactly 1
  | .seq p q => (span known p).add (span known q)
  | .alt p q => (span known p).either (span known q)
  | .times least most _ p | .possess least most p => (span known p).times least most
  | .atomic p | .group _ p | .under _ p => span known p
  | .same n => (known.lookup n).getD (.exactly 0)
  | .given _ yes no => (span known yes).either (span known no)

namespace Source

structure Piece where
  pattern : Pattern
  repeatable : Bool := true

structure Scope where
  verbose : Bool := false
  multiline : Bool := false
  dotAll : Bool := false
  first : Bool := false
  depth : Nat := 0

/-- What is still to be read, the groups opened so far, the group numbers mentioned before they were
known, and the groups before a look back. -/
structure State where
  rest : Chars
  count : Nat := 0
  opened : List Nat := []
  names : List (String × Nat) := []
  spans : List (Nat × Span) := []
  mentioned : List Nat := []
  behind : Option Nat := none
  flags : Chars := []

abbrev Reading := StateT State Outcome

def malformed {α : Type} : Reading α := throw .badPattern

def forward (n : Nat) : Reading Unit := modify fun s => { s with rest := s.rest.drop n }

def next : Reading Char := do
  let c :: _ := (← get).rest | malformed
  forward 1
  return c

def takeRun (p : Char → Bool) (most : Nat) : Reading Chars := do
  let run := ((← get).rest.take most).takeWhile p
  forward run.length
  return run

def takeAll (p : Char → Bool) : Reading Chars := do takeRun p (← get).rest.length

def accept (c : Char) : Reading Bool := do
  let found := (← get).rest.head? = .some c
  if found then forward 1
  return found

def expect (c : Char) : Reading Unit := do if !(← accept c) then malformed

def classLetter? : Char → Option CharItem
  | 'd' => .some .digit
  | 'D' => .some .nonDigit
  | 's' => .some .blank
  | 'S' => .some .nonBlank
  | 'w' => .some .wordChar
  | 'W' => .some .nonWordChar
  | _ => none

def placeLetter? : Char → Option Pattern
  | 'A' => .some .textStart
  | 'b' => .some .boundary
  | 'B' => .some .nonBoundary
  | 'Z' => .some .veryEnd
  | _ => none

def controlLetter? : Char → Option Char
  | 'a' => .some '\x07'
  | 'f' => .some '\x0c'
  | 'n' => .some '\n'
  | 'r' => .some '\r'
  | 't' => .some '\t'
  | 'v' => .some '\x0b'
  | '\\' => .some '\\'
  | _ => none

variable (c : Char)

def isOctal : Bool := '0' ≤ c && c ≤ '7'

def hexChar (count : Nat) : Reading (Option Char) := do
  let .some ds := ((← get).rest.take count).mapM Json.hexValue? | malformed
  let n := ds.foldl (fun n d => n * 16 + d) 0
  if ds.length < count || 0x10FFFF < n then malformed
  forward count
  return if n.isValidChar then .some (Char.ofNat n) else none

def octalChar (ds : Chars) : Reading Char := do
  let n := ds.foldl (fun n d => n * 8 + (d.toNat - 48)) 0
  if 0o377 < n then malformed
  return Char.ofNat n

def commonEscape : Reading (Option Char) := do
  match c with
  | 'x' => hexChar 2
  | 'u' => hexChar 4
  | 'U' => hexChar 8
  | c =>
    let control := controlLetter? c
    if c.isAlpha && control.isNone then malformed
    return .some (control.getD c)

/-- A group can be referred to once it is closed, and inside a look back only if it stands before
that. -/
def checkReference (n : Nat) : Reading Unit := do
  let s ← get
  if s.opened.contains n || s.behind.any (· < n) then malformed

def escape : Reading Piece := do
  let c ← next
  match classLetter? c, placeLetter? c with
  | .some item, _ => return { pattern := .set false [item] }
  | none, .some place => return ⟨place, false⟩
  | none, none =>
    let two := (← get).rest.take 2
    if c = '0' || (isOctal c && two.length = 2 && two.all isOctal) then
      return { pattern := .lit (← octalChar (c :: (← takeRun isOctal 2))) }
    else if c.isDigit then
      let n := Json.digitsValue (c :: (← takeRun Char.isDigit 1))
      if (← get).count < n then malformed
      checkReference n
      return { pattern := .same n }
    else return { pattern := ((← commonEscape c).map Pattern.lit).getD (.set false []) }

def classItem : Reading (Option CharItem) := do
  if c ≠ '\\' then return .some (.one c)
  let c ← next
  match classLetter? c with
  | .some item => return .some item
  | none =>
    if c = 'b' then return .some (.one '\x08')
    else if isOctal c then return .some (.one (← octalChar (c :: (← takeRun isOctal 2))))
    else if c.isDigit then malformed
    else return (← commonEscape c).map .one

def classItems (first : Bool) (acc : List CharItem) : Nat → Reading (List CharItem)
  | 0 => malformed
  | fuel + 1 => do
    let c ← next
    if c = ']' && !first then return acc.reverse
    let item ← classItem c
    match (← get).rest with
    | '-' :: ']' :: _ =>
      forward 2
      return (.one '-' :: item.toList ++ acc).reverse
    | '-' :: d :: _ =>
      forward 2
      let range ← match item, ← classItem d with
        | .some (.one low), .some (.one high) => if high < low then malformed else pure [.range low high]
        | .some (.one c), none | none, .some (.one c) => pure [.range c c]
        | none, none => pure []
        | _, _ => malformed
      classItems false (range ++ acc) fuel
    | _ => classItems false (item.toList ++ acc) fuel

def counts (s : Chars) : Option (Option Nat × Option Nat × Chars) :=
  let low := s.takeWhile Char.isDigit
  let number := fun (ds : Chars) => if ds.isEmpty then none else .some (Json.digitsValue ds)
  match s.drop low.length with
  | '\x7d' :: after => if low.isEmpty then none else .some (number low, number low, after)
  | ',' :: more =>
    let high := more.takeWhile Char.isDigit
    match more.drop high.length with
    | '\x7d' :: after => .some (number low, number high, after)
    | _ => none
  | _ => none

def repeatLast (least : Nat) (most : Option Nat) (pieces : List Piece) : Reading (List Piece) := do
  let p :: before := pieces | malformed
  if !p.repeatable then malformed
  let lazy ← accept '?'
  let possessive ← if lazy then pure false else accept '+'
  return ⟨if possessive then .possess least most p.pattern else .times least most (!lazy) p.pattern, false⟩ :: before

def untilChar (close : Char) : Reading String := do
  let name ← takeAll (· != close)
  expect close
  if name.isEmpty then malformed
  return String.ofList name

def isGroupName (name : String) : Bool :=
  match name.toList with
  | [] => false
  | c :: rest => isIdentifierStart c && rest.all isIdentifierPart

def groupName (close : Char) : Reading String := do
  let name ← untilChar close
  if !isGroupName name then malformed
  return name

def knownGroup (name : String) : Reading Nat := do
  let .some n := (← get).names.lookup name | malformed
  return n

def conditionGroup : Reading Nat := do
  let name ← untilChar ')'
  if isGroupName name then knownGroup name
  else
    let .some n := intOfText? name | malformed
    if n ≤ 0 || 1073741823 ≤ n then malformed
    modify fun s => { s with mentioned := n.toNat :: s.mentioned }
    return n.toNat

def isFlag : Bool := ['i', 'L', 'm', 's', 'x', 'a', 'u'].contains c

def readFlags : Reading (Chars × Chars × Bool) := do
  let added ← takeAll isFlag
  if added.contains 'L' || (added.contains 'a' && added.contains 'u') then malformed
  match ← next with
  | ')' => return (added, [], true)
  | ':' => return (added, [], false)
  | '-' =>
    let taken ← takeAll isFlag
    if taken.isEmpty || taken.any fun c => added.contains c || ['a', 'u', 'L'].contains c then malformed
    expect ':'
    return (added, taken, false)
  | _ => malformed

def Scope.change (scope : Scope) (added taken : Chars) : Scope :=
  let now := fun (c : Char) (old : Bool) => (old || added.contains c) && !taken.contains c
  { scope with
    verbose := now 'x' scope.verbose, multiline := now 'm' scope.multiline, dotAll := now 's' scope.dotAll }

def flagChange (added taken : Chars) : FlagChange where
  ignoreCase := if added.contains 'i' then .some true
    else if taken.contains 'i' then .some false else none
  ascii := if added.contains 'a' then .some true
    else if added.contains 'u' then .some false else none

def isPadding : Bool := c == ' ' || ('\t' ≤ c && c ≤ '\r')

def maxParentheses : Nat := 485

mutual

def alternatives (scope : Scope) : Nat → Reading Pattern
  | 0 => malformed
  | fuel + 1 => do
    let first ← pieces scope [] fuel
    if !(← accept '|') then return first
    let flags := (← get).flags
    let later := { scope.change (if scope.depth = 0 then flags else []) [] with first := false }
    return .alt first (← alternatives later fuel)

def pieces (scope : Scope) (acc : List Piece) : Nat → Reading Pattern
  | 0 => malformed
  | fuel + 1 => do
    let more := fun (p : Pattern) (repeatable : Bool) => pieces scope (⟨p, repeatable⟩ :: acc) fuel
    let repeated := fun (least : Nat) (most : Option Nat) => do
      pieces scope (← repeatLast least most acc) fuel
    match (← get).rest with
    | [] | '|' :: _ | ')' :: _ => return all (acc.reverse.map (·.pattern))
    | c :: rest =>
      forward 1
      if scope.verbose && isPadding c then pieces scope acc fuel
      else if scope.verbose && c == '#' then
        let _ ← takeAll (· != '\n')
        forward 1
        pieces scope acc fuel
      else match c with
      | '\\' => pieces scope ((← escape) :: acc) fuel
      | '[' =>
        let negated ← accept '^'
        more (.set negated (← classItems true [] (rest.length + 1))) true
      | '*' => repeated 0 none
      | '+' => repeated 1 none
      | '?' => repeated 0 (.some 1)
      | '\x7b' =>
        match counts rest with
        | none => more (.lit '\x7b') true
        | .some (low, high, rest) =>
          let least := low.getD 0
          if 4294967295 ≤ max least (high.getD 0) then throw (.overflow "the repetition number is too large")
          if high.any (· < least) then malformed
          modify ({ · with rest })
          repeated least high
      | '.' => more (if scope.dotAll then .set true [] else .any) true
      | '^' => more (if scope.multiline then .lineStart else .textStart) false
      | '$' => more (if scope.multiline then .lineEnd else .textEnd) false
      | '(' =>
        let (p, scope) ← parenthesis { scope with first := scope.first && acc.isEmpty } fuel
        pieces scope (p.toList.map ({ pattern := · }) ++ acc) fuel
      | c => more (.lit c) true

def parenthesis (scope : Scope) : Nat → Reading (Option Pattern × Scope)
  | 0 => malformed
  | fuel + 1 => do
    if maxParentheses < scope.depth then throw (.tooDeep "maximum recursion depth exceeded")
    let inner := { scope with first := false, depth := scope.depth + 1 }
    let closed := fun (p : Pattern) => do
      expect ')'
      return (.some p, scope)
    let capture := fun (name : Option String) => do
      let index := (← get).count + 1
      modify fun s => { s with
        count := index, opened := index :: s.opened, names := name.toList.map (·, index) ++ s.names }
      let p ← alternatives inner fuel
      modify fun s => { s with opened := s.opened.erase index, spans := (index, span s.spans p) :: s.spans }
      closed (.group index p)
    if !(← accept '?') then capture none
    else match ← next with
    | '#' =>
      let _ ← takeAll (· != ')')
      expect ')'
      return (none, scope)
    | ':' => closed (← alternatives inner fuel)
    | '>' => closed (.atomic (← alternatives inner fuel))
    | '=' => closed (.ahead false (← alternatives inner fuel))
    | '!' => closed (.ahead true (← alternatives inner fuel))
    | '<' =>
      let mark ← next
      if mark ≠ '=' && mark ≠ '!' then malformed
      let behind := (← get).behind
      modify fun s => { s with behind := s.behind.or (.some s.count) }
      let p ← alternatives inner fuel
      modify ({ · with behind })
      let w := span (← get).spans p
      if w.most ≠ .some w.least then malformed
      closed (.behind (mark = '!') w.least p)
    | 'P' =>
      if ← accept '=' then
        let n ← knownGroup (← groupName ')')
        checkReference n
        return (.some (.same n), scope)
      expect '<'
      let name ← groupName '>'
      if ((← get).names.lookup name).isSome then malformed
      capture (.some name)
    | '(' =>
      let n ← conditionGroup
      if (← get).behind.isSome then checkReference n
      let yes ← pieces inner [] fuel
      let no ← if ← accept '|' then pieces inner [] fuel else pure .empty
      closed (.given n yes no)
    | c =>
      if !isFlag c && c != '-' then malformed
      modify fun s => { s with rest := c :: s.rest }
      let (added, taken, whole) ← readFlags
      if whole then
        if !scope.first then malformed
        modify fun s => { s with flags := s.flags ++ added }
        return (none, scope.change added [])
      closed (.under (flagChange added taken) (← alternatives (inner.change added taken) fuel))

end

def whole : Reading Pattern := do
  let p ← alternatives { first := true } (2 * (← get).rest.length + 4)
  let s ← get
  if !s.rest.isEmpty || s.mentioned.any (s.count < ·) then malformed
  if s.flags.contains 'a' && s.flags.contains 'u' then
    throw (.badValue "ASCII and UNICODE flags are incompatible")
  return if s.flags.isEmpty then p else .under (flagChange s.flags []) p

end Source

def parse (source : String) : Outcome Pattern := Source.whole.run' { rest := source.toList }

end CodeAudit.Pattern

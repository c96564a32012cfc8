import CodeAudit.Text.LetterCase

/-! Text patterns: sequences, ordered alternatives, repetitions, marked groups and places such as
line ends. -/

namespace CodeAudit

inductive CharItem where
  | one (c : Char)
  | range (low high : Char)
  | digit
  | nonDigit
  | blank
  | nonBlank
  | wordChar
  | nonWordChar

structure PatternFlags where
  ignoreCase : Bool := false
  dotAll : Bool := false
  ascii : Bool := false

structure FlagChange where
  ignoreCase : Option Bool := none
  ascii : Option Bool := none

def PatternFlags.apply (flags : PatternFlags) (change : FlagChange) : PatternFlags :=
  { flags with
    ignoreCase := change.ignoreCase.getD flags.ignoreCase
    ascii := change.ascii.getD flags.ascii }

inductive Pattern where
  | empty
  | lit (c : Char)
  | any
  | set (negated : Bool) (items : List CharItem)
  | seq (first second : Pattern)
  | alt (first second : Pattern)
  /-- At least `least` and at most `most` times, as often as possible or as seldom. -/
  | times (least : Nat) (most : Option Nat) (greedy : Bool) (body : Pattern)
  /-- Like `times`, as often as possible, with no other count tried afterwards. -/
  | possess (least : Nat) (most : Option Nat) (body : Pattern)
  | atomic (body : Pattern)
  | group (index : Nat) (body : Pattern)
  | same (index : Nat)
  | given (index : Nat) (yes no : Pattern)
  | under (change : FlagChange) (body : Pattern)
  | textStart
  | lineStart
  | textEnd
  | lineEnd
  | veryEnd
  | boundary
  | nonBoundary
  | ahead (negated : Bool) (body : Pattern)
  | behind (negated : Bool) (width : Nat) (body : Pattern)

namespace CharItem

def isBasic (c : Char) : Bool := c.toNat < 128

def holds (flags : PatternFlags) : CharItem → Char → Bool
  | .one c, d => c == d
  | .range low high, d => low ≤ d && d ≤ high
  | .digit, d => isDecimalDigit d && (!flags.ascii || isBasic d)
  | .nonDigit, d => !(isDecimalDigit d && (!flags.ascii || isBasic d))
  | .blank, d => if flags.ascii then isBasicBlank d else isBlank d
  | .nonBlank, d => !(if flags.ascii then isBasicBlank d else isBlank d)
  | .wordChar, d => isWordChar d && (!flags.ascii || isBasic d)
  | .nonWordChar, d => !(isWordChar d && (!flags.ascii || isBasic d))
where
  isBasicBlank (c : Char) : Bool := c == ' ' || ('\t' ≤ c && c ≤ '\r')

end CharItem

namespace Pattern

def kindredLetters : List (List Nat) := [
  [105, 305], [115, 383], [181, 956], [837, 953, 8126], [912, 8147], [944, 8163], [946, 976],
  [949, 1013], [952, 977], [954, 1008], [960, 982], [961, 1009], [962, 963], [966, 981], [1074, 7296],
  [1076, 7297], [1086, 7298], [1089, 7299], [1090, 7300, 7301], [1098, 7302], [1123, 7303],
  [7304, 42571], [7777, 7835], [64261, 64262]]

variable (c : Char)

def smallLetter : Char := (lowerChar c).headD c

def kin : Chars :=
  let small := smallLetter c
  small :: ((kindredLetters.find? (·.contains small.toNat)).map fun g =>
    (g.filter (· != small.toNat)).map Char.ofNat).getD []

def rareCapitals : List (Nat × Nat) := [
  (0x69, 0x130), (0x6b, 0x212a), (0xe5, 0x212b), (0x1c6, 0x1c5), (0x1c9, 0x1c8), (0x1cc, 0x1cb),
  (0x1f3, 0x1f2), (0x3b8, 0x3f4), (0x3c9, 0x2126), (0xdf, 0x1e9e), (0x1f80, 0x1f88), (0x1f81, 0x1f89),
  (0x1f82, 0x1f8a), (0x1f83, 0x1f8b), (0x1f84, 0x1f8c), (0x1f85, 0x1f8d), (0x1f86, 0x1f8e),
  (0x1f87, 0x1f8f), (0x1f90, 0x1f98), (0x1f91, 0x1f99), (0x1f92, 0x1f9a), (0x1f93, 0x1f9b),
  (0x1f94, 0x1f9c), (0x1f95, 0x1f9d), (0x1f96, 0x1f9e), (0x1f97, 0x1f9f), (0x1fa0, 0x1fa8),
  (0x1fa1, 0x1fa9), (0x1fa2, 0x1faa), (0x1fa3, 0x1fab), (0x1fa4, 0x1fac), (0x1fa5, 0x1fad),
  (0x1fa6, 0x1fae), (0x1fa7, 0x1faf), (0x1fb3, 0x1fbc), (0x1fc3, 0x1fcc), (0x1ff3, 0x1ffc)]

def capitals : Chars :=
  let usual := match upperChar c with
    | [u] => if smallLetter u == c then [u] else []
    | _ => []
  usual ++ (rareCapitals.filter (·.1 == c.toNat)).map fun e => Char.ofNat e.2

variable (flags : PatternFlags)

def caseVariants (c : Char) : Chars :=
  if flags.ascii then (if c.toNat < 128 then [c.toLower, c.toUpper] else [c])
  else (kin c).flatMap fun s => s :: capitals s

def holdsAny (items : List CharItem) (c : Char) : Bool :=
  if flags.ignoreCase then items.any fun item => (caseVariants flags c).any (item.holds flags)
  else items.any fun item => item.holds flags c

def foldedLetter (c : Char) : Char := if flags.ascii then c.toLower else smallLetter c

def sameChar (a b : Char) : Bool :=
  if !flags.ignoreCase then a == b
  else if flags.ascii || (a.toNat < 128 && b.toNat < 128) then a.toLower == b.toLower
  else (kin b).contains (smallLetter a)

def chars : Chars → Pattern
  | [] => .empty
  | [c] => .lit c
  | c :: rest => .seq (.lit c) (chars rest)

variable (s : String)

def text : Pattern := chars s.toList

def all : List Pattern → Pattern
  | [] => .empty
  | [p] => p
  | p :: rest => .seq p (all rest)

def oneOf : List Pattern → Pattern
  | [] => .empty
  | [p] => p
  | p :: rest => .alt p (oneOf rest)

variable (p : Pattern)

def many : Pattern := .times 0 none true p

def some : Pattern := .times 1 none true p

def optional : Pattern := .times 0 (.some 1) true p

def few : Pattern := .times 0 none false p

def digit : Pattern := .set false [.digit]

def blank : Pattern := .set false [.blank]

def wordChar : Pattern := .set false [.wordChar]

def charOf : Pattern := .set false (s.toList.map .one)

def charNotOf : Pattern := .set true (s.toList.map .one)

def word : Pattern := all [.boundary, text s, .boundary]

def whole : Pattern := all [.textStart, p, .textEnd]

end Pattern

end CodeAudit

/-! Finding patterns in texts. Alternatives are tried in order, repetitions from the preferred count
on, and the first whole match is taken. -/

namespace CodeAudit.Pattern

structure Cursor where
  before : Chars
  ahead : Chars
  offset : Nat
  groups : List (Nat × Chars)

namespace Cursor

def start (s : Chars) : Cursor := ⟨[], s, 0, []⟩

variable (c : Cursor)

def next? : Option (Char × Cursor) :=
  match c.ahead with
  | [] => none
  | d :: rest => .some (d, { c with before := d :: c.before, ahead := rest, offset := c.offset + 1 })

def atBoundary (flags : PatternFlags) (c : Cursor) : Bool :=
  let side := fun (s : Chars) => (s.head?.map (CharItem.wordChar.holds flags)).getD false
  side c.before != side c.ahead

def since (offset : Nat) : Chars := (c.before.take (c.offset - offset)).reverse

def back : Nat → Cursor → Option Cursor
  | 0, c => .some c
  | n + 1, c =>
    match c.before with
    | [] => none
    | d :: rest => back n { c with before := rest, ahead := d :: c.ahead, offset := c.offset - 1 }

def group? (index : Nat) : Option Chars := c.groups.lookup index

end Cursor

abbrev Continuation := Cursor → Option Cursor

def step (test : Char → Bool) (c : Cursor) (k : Continuation) : Option Cursor :=
  match c.next? with
  | .some (d, c') => if test d then k c' else none
  | none => none

def takeText (flags : PatternFlags) : Chars → Cursor → Continuation → Option Cursor
  | [], c, k => k c
  | d :: rest, c, k =>
    let same := fun (e : Char) =>
      if flags.ignoreCase then foldedLetter flags d == foldedLetter flags e else d == e
    step same c fun c' => takeText flags rest c' k

def check (test : Bool) (c : Cursor) (k : Continuation) : Option Cursor := if test then k c else none

/-- Repeats a piece that still has to match `least` times and may match `most` times. Past the least
number of times, a piece that takes no text is the last one. `fuel` bounds the number of times. -/
def iterate (body : Cursor → Continuation → Option Cursor) (greedy : Bool) :
    Nat → Nat → Option Nat → Cursor → Continuation → Option Cursor
  | 0, _, _, c, k => k c
  | fuel + 1, least + 1, most, c, k => body c fun c' => iterate body greedy fuel least (most.map (· - 1)) c' k
  | fuel + 1, 0, most, c, k =>
    if most = .some 0 then k c
    else
      let more := fun (_ : Unit) => body c fun c' =>
        if c'.offset = c.offset then k c' else iterate body greedy fuel 0 (most.map (· - 1)) c' k
      if greedy then
        match more () with
        | .some found => .some found
        | none => k c
      else
        match k c with
        | .some found => .some found
        | none => more ()

def exhaust (body : Cursor → Option Cursor) : Nat → Nat → Option Nat → Cursor → Option Cursor
  | 0, _, _, c => .some c
  | fuel + 1, least + 1, most, c =>
    match body c with
    | .some c' => exhaust body fuel least (most.map (· - 1)) c'
    | none => none
  | fuel + 1, 0, most, c =>
    if most = .some 0 then .some c
    else match body c with
      | .some c' =>
        if c'.offset = c.offset then .some c' else exhaust body fuel 0 (most.map (· - 1)) c'
      | none => .some c

def run (flags : PatternFlags) : Pattern → Cursor → Continuation → Option Cursor
  | .empty, c, k => k c
  | .lit d, c, k => step (sameChar flags d) c k
  | .any, c, k => step (fun d => flags.dotAll || d != '\n') c k
  | .set negated items, c, k => step (fun d => holdsAny flags items d != negated) c k
  | .seq p q, c, k => run flags p c fun c' => run flags q c' k
  | .alt p q, c, k =>
    match run flags p c k with
    | .some found => .some found
    | none => run flags q c k
  | .times least most greedy p, c, k => iterate (run flags p) greedy (least + c.ahead.length + 1) least most c k
  | .possess least most p, c, k =>
    match exhaust (fun c => run flags p c Option.some) (least + c.ahead.length + 1) least most c with
    | .some c' => k c'
    | none => none
  | .atomic p, c, k =>
    match run flags p c .some with
    | .some c' => k c'
    | none => none
  | .given index yes no, c, k =>
    if (c.group? index).isSome then run flags yes c k else run flags no c k
  | .under change p, c, k => run (flags.apply change) p c k
  | .group index p, c, k => run flags p c fun c' => k { c' with groups := (index, c'.since c.offset) :: c'.groups }
  | .same index, c, k =>
    match c.group? index with
    | .some piece => takeText flags piece c k
    | none => none
  | .textStart, c, k => check c.before.isEmpty c k
  | .lineStart, c, k => check ((c.before.head?.map (· == '\n')).getD true) c k
  | .textEnd, c, k => check (c.ahead == [] || c.ahead == ['\n']) c k
  | .lineEnd, c, k => check ((c.ahead.head?.map (· == '\n')).getD true) c k
  | .veryEnd, c, k => check c.ahead.isEmpty c k
  | .boundary, c, k => check (c.atBoundary flags) c k
  | .nonBoundary, c, k => check (!c.atBoundary flags && !(c.before.isEmpty && c.ahead.isEmpty)) c k
  | .ahead negated p, c, k =>
    match run flags p c .some with
    | .some c' => if negated then none else k { c with groups := c'.groups }
    | none => if negated then k c else none
  | .behind negated width p, c, k =>
    let found := match Cursor.back width c with
      | .some b => run flags p b Option.some
      | none => none
    match found with
    | .some c' => if negated then none else k { c with groups := c'.groups }
    | none => if negated then k c else none

structure Match where
  offset : Nat
  text : Chars
  groups : List (Nat × Chars)

def Match.stop (m : Match) : Nat := m.offset + m.text.length

def Match.group? (m : Match) (index : Nat) : Option String := (m.groups.lookup index).map String.ofList

def matchAt (flags : PatternFlags) (p : Pattern) (advance : Bool) (c : Cursor) : Option (Match × Cursor) :=
  let c := { c with groups := [] }
  let accept := fun (c' : Cursor) =>
    if advance && c'.offset == c.offset then none else .some c'
  (run flags p c accept).map fun c' => (⟨c.offset, c'.since c.offset, c'.groups⟩, c')

def searchFrom (flags : PatternFlags) (p : Pattern) : Nat → Bool → Cursor → Option (Match × Cursor)
  | 0, _, _ => none
  | fuel + 1, advance, c =>
    match matchAt flags p advance c with
    | .some found => .some found
    | none =>
      match c.next? with
      | .some (_, c') => searchFrom flags p fuel false c'
      | none => none

def allFrom (flags : PatternFlags) (p : Pattern) : Nat → Bool → Cursor → List Match
  | 0, _, _ => []
  | fuel + 1, advance, c =>
    match searchFrom flags p (c.ahead.length + 1) advance c with
    | none => []
    | .some (m, c') => m :: allFrom flags p fuel m.text.isEmpty c'

def findAll (p : Pattern) (s : String) (flags : PatternFlags := {}) : List Match :=
  allFrom flags p (2 * s.length + 2) false (Cursor.start s.toList)

def occurs (p : Pattern) (s : String) (flags : PatternFlags := {}) : Bool :=
  (searchFrom flags p (s.length + 1) false (Cursor.start s.toList)).isSome

def startsAt (p : Pattern) (s : Chars) : Bool := (run {} p (.start s) .some).isSome

def countIn (p : Pattern) (s : String) (flags : PatternFlags := {}) : Nat := (findAll p s flags).length

def lineAt (s : String) (offset : Nat) : Nat := (s.toList.take offset).count '\n' + 1

end CodeAudit.Pattern

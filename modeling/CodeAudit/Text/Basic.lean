/-! Sets of code points given by a sorted list of bounds. A packed table gives the gaps between its
bounds: the first sixty digits end a gap, and the others stand before a further digit. From U+0800
on a code point that is no character may be in a set or not. -/

namespace CodeAudit

abbrev Chars := List Char

def digitSigns : Chars :=
  "0123456789ABCDEFGHIJKLMNOPQRSTUVWXYZabcdefghijklmnopqrstuvwxyz!#$%&()*+,.;<=>?@[]^_|~/:'".toList

def packedDigits (s : String) : List Nat := s.toList.filterMap fun c => digitSigns.findIdx? (· == c)

def packedGaps : Nat → List Nat → List Nat
  | _, [] => []
  | high, d :: rest => if d < 60 then (high * 60 + d) :: packedGaps 0 rest else packedGaps (high * 25 + d - 60) rest

structure RangeTable where
  bounds : Array Nat

namespace RangeTable

def ofPacked (s : String) : RangeTable :=
  ⟨(packedGaps 0 (packedDigits s)).foldl (fun bounds gap => bounds.push (bounds.back?.getD 0 + gap)) #[]⟩

/-- The number of bounds in `lo ..< hi`, all later ones being above `n`, that are at most `n`, plus
`lo`. -/
def search (table : RangeTable) (n : Nat) : Nat → Nat → Nat → Nat
  | 0, lo, _ => lo
  | fuel + 1, lo, hi =>
    if hi ≤ lo then lo
    else
      let mid := (lo + hi) / 2
      if table.bounds.getD mid 0 ≤ n then table.search n fuel (mid + 1) hi
      else table.search n fuel lo mid

def contains (table : RangeTable) (c : Char) : Bool :=
  table.search c.toNat table.bounds.size 0 table.bounds.size % 2 = 1

end RangeTable

def digitZeros : List Nat := [
  48, 1632, 1776, 1984, 2406, 2534, 2662, 2790, 2918, 3046, 3174, 3302, 3430, 3558, 3664, 3792,
  3872, 4160, 4240, 6112, 6160, 6470, 6608, 6784, 6800, 6992, 7088, 7232, 7248, 42528, 43216, 43264,
  43472, 43504, 43600, 44016, 65296, 66720, 68912, 69734, 69872, 69942, 70096, 70384, 70736, 70864,
  71248, 71360, 71472, 71904, 72016, 72784, 73040, 73120, 92768, 92864, 93008, 120782, 120792,
  120802, 120812, 120822, 123200, 123632, 125264, 130032]

variable (c : Char)

def digitValue? : Option Nat :=
  if c.toNat < 128 then (if c.isDigit then some (c.toNat - 48) else none)
  else (digitZeros.find? fun z => z ≤ c.toNat && c.toNat < z + 10).map (c.toNat - ·)

def isDecimalDigit : Bool := (digitValue? c).isSome

/-! Operations on text as a list of characters, and the parts of paths. The `String` forms convert
at both ends. -/

def isBlank : Bool :=
  let n := c.toNat
  (9 ≤ n && n ≤ 13) || (28 ≤ n && n ≤ 32) || n == 133 || n == 160 || n == 5760 ||
    (8192 ≤ n && n ≤ 8202) || n == 8232 || n == 8233 || n == 8239 || n == 8287 || n == 12288

def isLineBreak : Bool :=
  let n := c.toNat
  (10 ≤ n && n ≤ 13) || (28 ≤ n && n ≤ 30) || n == 133 || n == 8232 || n == 8233

namespace Chars

def dropRight (p : Char → Bool) (s : Chars) : Chars := (s.reverse.dropWhile p).reverse

def dropBoth (p : Char → Bool) (s : Chars) : Chars := dropRight p (s.dropWhile p)

def strip (s : Chars) : Chars := dropBoth isBlank s

def splitOn (sep : Char) : Chars → List Chars
  | [] => [[]]
  | c :: rest =>
    if c = sep then [] :: splitOn sep rest
    else match splitOn sep rest with
      | [] => [[c]]
      | piece :: pieces => (c :: piece) :: pieces

def splitFirst (sep : Char) : Nat → Chars → List Chars
  | 0, s => [s]
  | _ + 1, [] => [[]]
  | count + 1, c :: rest =>
    if c = sep then [] :: splitFirst sep count rest
    else match splitFirst sep (count + 1) rest with
      | [] => [[c]]
      | piece :: pieces => (c :: piece) :: pieces

def words (s : Chars) : List Chars :=
  let flush := fun (state : Chars × List Chars) =>
    if state.1.isEmpty then state.2 else state.1.reverse :: state.2
  (flush (s.foldl
    (fun state c => if isBlank c then ([], flush state) else (c :: state.1, state.2))
    ([], []))).reverse

/-- The lines of a text without their ends; `\r\n` is one end, and an end at the very end of the
text opens no further line. -/
def lines : Chars → List Chars
  | [] => []
  | '\r' :: '\n' :: rest => [] :: lines rest
  | c :: rest =>
    if isLineBreak c then [] :: lines rest
    else match rest, lines rest with
      | [], _ => [[c]]
      | _, [] => [[c]]
      | d :: _, line :: more => if isLineBreak d then [c] :: more else (c :: line) :: more

def unifyNewlines : Chars → Chars
  | '\r' :: '\n' :: rest => '\n' :: unifyNewlines rest
  | '\r' :: rest => '\n' :: unifyNewlines rest
  | c :: rest => c :: unifyNewlines rest
  | [] => []

def afterPrefix : Chars → Chars → Option Chars
  | [], s => some s
  | _ :: _, [] => none
  | p :: ps, c :: s => if p = c then afterPrefix ps s else none

variable (part s : Chars)

def startsWith : Bool := (afterPrefix part s).isSome

theorem afterPrefix_eq_some_iff {part s rest : Chars} : afterPrefix part s = some rest ↔ s = part ++ rest := by
  induction part generalizing s with
  | nil => simp [afterPrefix, eq_comm]
  | cons p ps ih =>
    cases s with
    | nil => simp [afterPrefix]
    | cons c s =>
      by_cases hc : p = c
      · simp [afterPrefix, hc, ih]
      · simp [afterPrefix, hc, show ¬ c = p from fun h => hc h.symm]

theorem startsWith_iff {part s : Chars} : startsWith part s = true ↔ part <+: s := by
  rw [startsWith, Option.isSome_iff_exists]
  exact exists_congr fun rest => afterPrefix_eq_some_iff.trans eq_comm

def endsWith : Bool := startsWith part.reverse s.reverse

def cut (part : Chars) : Chars → Option (Chars × Chars)
  | [] => if part.isEmpty then some ([], []) else none
  | c :: rest =>
    match afterPrefix part (c :: rest) with
    | some after => some ([], after)
    | none => (cut part rest).map fun (before, after) => (c :: before, after)

def occurs : Bool := (cut part s).isSome

theorem occurs_iff {part s : Chars} : occurs part s = true ↔ part <:+: s := by
  rw [occurs]
  induction s with
  | nil => cases part <;> simp [cut]
  | cons c rest ih =>
    rw [List.infix_cons_iff, ← ih, ← startsWith_iff, startsWith, cut]
    cases afterPrefix part (c :: rest) <;> simp

def indexOf : Option Nat := (cut part s).map (·.1.length)

def cutAll (part : Chars) : Nat → Chars → List Chars
  | 0, s => [s]
  | fuel + 1, s =>
    match cut part s with
    | some (before, after) => before :: cutAll part fuel after
    | none => [s]

def splitBy : List Chars := cutAll part (s.length + 1) s

def replace (old new s : Chars) : Chars := List.intercalate new (splitBy old s)

end Chars

namespace Text

def strip (s : String) : String := String.ofList (Chars.strip s.toList)

def splitOn (sep : Char) (s : String) : List String := (Chars.splitOn sep s.toList).map String.ofList

def lines (s : String) : List String := (Chars.lines s.toList).map String.ofList

def unifyNewlines (s : String) : String := String.ofList (Chars.unifyNewlines s.toList)

def words (s : String) : List String := (Chars.words s.toList).map String.ofList

def occurs (part s : String) : Bool := Chars.occurs part.toList s.toList

def startsWith (part s : String) : Bool := Chars.startsWith part.toList s.toList

def endsWith (part s : String) : Bool := Chars.endsWith part.toList s.toList

def replace (old new s : String) : String := String.ofList (Chars.replace old.toList new.toList s.toList)

def join (sep : String) (pieces : List String) : String := String.intercalate sep pieces

def take (n : Nat) (s : String) : String := String.ofList (s.toList.take n)

def drop (n : Nat) (s : String) : String := String.ofList (s.toList.drop n)

def padLeft (fill : Char) (width : Nat) (s : String) : String :=
  String.ofList (List.replicate (width - s.length) fill) ++ s

end Text

def natText (n : Nat) : String := String.ofList (Nat.toDigits 10 n)

def intText (n : Int) : String := if n < 0 then "-" ++ natText n.natAbs else natText n.natAbs

end CodeAudit

namespace CodeAudit.Path

variable (path : String)

def parts : List String := (Text.splitOn '/' path).filter fun p => p ≠ "" && p ≠ "."

def name : String := (parts path).getLastD ""

/-- The ending of a name from its last dot on; a dot at either end of the name starts none. -/
def nameSuffix (s : Chars) : Chars :=
  let ending := (s.reverse.takeWhile (· ≠ '.')).reverse
  if ending.isEmpty || s.length ≤ ending.length + 1 then [] else '.' :: ending

def suffix : String := String.ofList (nameSuffix (name path).toList)

def stem : String := Text.take ((name path).length - (suffix path).length) (name path)

def isAbsolute : Bool := Text.startsWith "/" path

def settle : List String → List String → List String
  | seen, [] => seen
  | seen, p :: rest => if p = ".." then settle seen.dropLast rest else settle (seen ++ [p]) rest

def rootLinks : List String := ["bin", "lib", "lib64", "sbin"]

def follow (names : List String) : List String :=
  if rootLinks.contains (names.headD "") then "usr" :: names else names

def resolve (directory path : String) : String :=
  if isAbsolute path then "/" ++ Text.join "/" (follow (settle [] (parts path)))
  else Text.join "/" (settle [directory] (parts path))

end CodeAudit.Path

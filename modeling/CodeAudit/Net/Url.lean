import CodeAudit.Text.LetterCase

/-! The scheme and the host of a web address, and addresses of hosts as they are written. -/

namespace CodeAudit.Net

variable (s : Chars)

def isOctet : Bool :=
  !s.isEmpty && s.all Char.isDigit && s.length ≤ 3 && (s.length = 1 || s.head? ≠ some '0') &&
    s.foldl (fun n c => n * 10 + (c.toNat - 48)) 0 ≤ 255

def isShortAddress : Bool :=
  let parts := Chars.splitOn '.' s
  parts.length = 4 && parts.all isOctet

variable (c : Char)

def isHexDigit : Bool := c.isDigit || ('a' ≤ c && c ≤ 'f') || ('A' ≤ c && c ≤ 'F')

def isGroup : Bool := !s.isEmpty && s.length ≤ 4 && s.all isHexDigit

def groupsOf : Option (List Chars) :=
  let parts := Chars.splitOn ':' s
  match parts.getLast? with
  | some last =>
    if last.contains '.' then
      if isShortAddress last then some (parts.dropLast ++ [['0'], ['0']]) else none
    else some parts
  | none => none

/-- Eight groups, or fewer with one gap. A gap is an empty part inside; an empty part at either end
belongs to a gap there. -/
def isLongAddress : Bool :=
  let bare := s.takeWhile (· ≠ '%')
  let hasScope := s.contains '%'
  let scope := (s.dropWhile (· ≠ '%')).drop 1
  if hasScope && (scope.isEmpty || scope.contains '%') then false
  else if (Chars.splitOn ':' bare).length < 3 then false
  else match groupsOf bare with
    | none => false
    | some parts =>
      let inner := (parts.drop 1).dropLast
      let gaps := inner.countP (·.isEmpty)
      let first := parts.headD []
      let last := parts.getLastD []
      let full := parts.filter (!·.isEmpty)
      if 9 < parts.length || 1 < gaps then false
      else if gaps = 1 then
        let gapAt := (parts.drop 1).findIdx (·.isEmpty) + 1
        let before := if first.isEmpty then gapAt - 1 else gapAt
        let after := parts.length - gapAt - 1
        let after := if last.isEmpty then after - 1 else after
        (!first.isEmpty || before = 0) && (!last.isEmpty || after = 0) && before + after < 8 &&
          full.all isGroup
      else parts.length = 8 && parts.all isGroup

def isSchemeChar : Bool := c.isAlphanum || c == '+' || c == '-' || c == '.'

def isControlOrSpace : Bool := c.toNat ≤ 32

def bareAddress : Chars := (s.dropWhile isControlOrSpace).filter fun c => c != '\t' && c != '\r' && c != '\n'

def splitScheme : Chars × Chars :=
  let scheme := s.takeWhile (· ≠ ':')
  match s.dropWhile (· ≠ ':') with
  | _ :: rest =>
    match scheme with
    | c :: _ => if c.isAlpha && scheme.all isSchemeChar then (scheme.map Char.toLower, rest) else ([], s)
    | [] => ([], s)
  | [] => ([], s)

def hostOf : Chars → Chars
  | '/' :: '/' :: rest => rest.takeWhile fun c => c != '/' && c != '?' && c != '#'
  | _ => []

def isBracketed : Bool :=
  match s with
  | 'v' :: rest =>
    let digits := rest.takeWhile isHexDigit
    match rest.dropWhile isHexDigit with
    | '.' :: after => !digits.isEmpty && !after.isEmpty && !after.contains '\n'
    | _ => false
  | _ => isLongAddress s

def separatorLookalikes : List Nat := [
  8263, 8264, 8265, 8448, 8449, 8453, 8454, 10868, 65043, 65046, 65109, 65110, 65119, 65131, 65283,
  65295, 65306, 65311, 65312]

def isSoundHost (host : Chars) : Bool :=
  let opens := host.contains '['
  let closes := host.contains ']'
  let inside := ((host.dropWhile (· ≠ '[')).drop 1).takeWhile (· ≠ ']')
  opens == closes && (!opens || isBracketed inside) &&
    !host.any fun c => separatorLookalikes.contains c.toNat

def isFullAddress (s : String) : Bool :=
  let (scheme, rest) := splitScheme (bareAddress s.toList)
  let host := hostOf rest
  !scheme.isEmpty && !host.isEmpty && isSoundHost host

end CodeAudit.Net

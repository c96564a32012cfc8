import CodeAudit.Syntax.Stream
import CodeAudit.Json
import CodeAudit.Text.LetterCase

/-! Characters by their names: Latin and Greek letters and the most common signs. -/

namespace CodeAudit.CharName

def signs : List (String × Char) := [
  ("NO-BREAK SPACE", '\u00A0'), ("ZERO WIDTH SPACE", '\u200B'), ("EURO SIGN", '€'), ("POUND SIGN", '£'),
  ("SECTION SIGN", '§'), ("DEGREE SIGN", '°'), ("PLUS-MINUS SIGN", '±'), ("MULTIPLICATION SIGN", '×'),
  ("COPYRIGHT SIGN", '©'), ("EN DASH", '–'), ("EM DASH", '—'), ("BULLET", '•'), ("HORIZONTAL ELLIPSIS", '…'),
  ("LEFTWARDS ARROW", '\u2190'), ("RIGHTWARDS ARROW", '\u2192'), ("CHECK MARK", '✓'), ("SNOWMAN", '☃'),
  ("LATIN SMALL LETTER SHARP S", 'ß')]

/-- Capital letters with numbers in a row; the small ones follow after 32. -/
def letters : List (Nat × String × String) := [
  (0x41, "LATIN", "A B C D E F G H I J K L M N O P Q R S T U V W X Y Z"),
  (0x391, "GREEK", "ALPHA BETA GAMMA DELTA EPSILON ZETA ETA THETA IOTA KAPPA LAMDA MU NU XI OMICRON PI RHO"),
  (0x3A3, "GREEK", "SIGMA TAU UPSILON PHI CHI PSI OMEGA")]

/-- Capital Latin letters with a mark: the letters without it, and with it. -/
def markedLetters : List (String × String × String) := [
  ("GRAVE", "AEIOU", "ÀÈÌÒÙ"), ("ACUTE", "AEIOUY", "ÁÉÍÓÚÝ"), ("CIRCUMFLEX", "AEIOU", "ÂÊÎÔÛ"),
  ("TILDE", "ANO", "ÃÑÕ"), ("DIAERESIS", "AEIOUY", "ÄËÏÖÜŸ"), ("RING ABOVE", "A", "Å"),
  ("CEDILLA", "C", "Ç"), ("CARON", "CSZ", "ČŠŽ"), ("STROKE", "LO", "ŁØ")]

def names : List (String × Char) :=
  signs ++
  letters.flatMap (fun (first, script, names) => (Text.words names).zipIdx.flatMap fun (name, i) =>
    [(script ++ " CAPITAL LETTER " ++ name, .ofNat (first + i)),
     (script ++ " SMALL LETTER " ++ name, .ofNat (first + i + 32))]) ++
  markedLetters.flatMap fun (mark, plain, marked) => (plain.toList.zip marked.toList).flatMap fun (p, m) =>
    [(s!"LATIN CAPITAL LETTER {p} WITH {mark}", m), (s!"LATIN SMALL LETTER {p} WITH {mark}", (lowerChar m).headD m)]

def char? (name : Chars) : Option Char := names.lookup (String.ofList (name.map Char.toUpper))

end CodeAudit.CharName

/-! The text of string literals: escapes after a backslash. A malformed escape has no result; an
unknown one stands for itself. -/

namespace CodeAudit.Syntax.Literal

def hexDigits : Nat → Nat → Chars → Option (Nat × Chars)
  | 0, n, s => some (n, s)
  | count + 1, n, c :: rest =>
    match Json.hexValue? c with
    | some d => hexDigits count (n * 16 + d) rest
    | none => none
  | _ + 1, _, [] => none

def octalDigits : Nat → Nat → Chars → Nat × Chars
  | count + 1, n, c :: rest =>
    if '0' ≤ c ∧ c ≤ '7' then octalDigits count (n * 8 + (c.toNat - 48)) rest else (n, c :: rest)
  | _, n, s => (n, s)

def plainEscape? : Char → Option Chars
  | '\n' => some []
  | '\\' => some ['\\']
  | '\'' => some ['\'']
  | '"' => some ['"']
  | 'a' => some ['\x07']
  | 'b' => some ['\x08']
  | 'f' => some ['\x0c']
  | 'n' => some ['\n']
  | 'r' => some ['\r']
  | 't' => some ['\t']
  | 'v' => some ['\x0b']
  | _ => none

def textEscape : Chars → Option (Chars × Chars)
  | [] => none
  | c :: rest =>
    match plainEscape? c with
    | some cs => some (cs, rest)
    | none =>
      if '0' ≤ c ∧ c ≤ '7' then
        let (n, rest) := octalDigits 2 (c.toNat - 48) rest
        some ([Char.ofNat n], rest)
      else if c = 'x' then (hexDigits 2 0 rest).map fun (n, rest) => ([Char.ofNat n], rest)
      else if c = 'u' then (hexDigits 4 0 rest).map fun (n, rest) => ([Char.ofNat n], rest)
      else if c = 'U' then
        match hexDigits 8 0 rest with
        | some (n, rest) => if n ≤ 0x10FFFF then some ([Char.ofNat n], rest) else none
        | none => none
      else if c = 'N' then
        match rest with
        | '{' :: more =>
          let name := more.takeWhile (· != '}')
          if name.isEmpty ∨ name.length = more.length then none
          else (CharName.char? name).map fun c => ([c], more.drop (name.length + 1))
        | _ => none
      else some (['\\', c], rest)

def decodeFuel : Nat → Chars → Option Chars
  | 0, _ => some []
  | _ + 1, [] => some []
  | fuel + 1, '\\' :: rest =>
    match rest with
    | [] => some ['\\']
    | _ => do
      let (cs, rest) ← textEscape rest
      let tail ← decodeFuel fuel rest
      return cs ++ tail
  | fuel + 1, c :: rest => (decodeFuel fuel rest).map (c :: ·)

def decode (raw : Bool) (body : Chars) : Option Chars :=
  if raw then some body else decodeFuel (body.length + 1) body

def validBytes (raw : Bool) (body : Chars) : Bool := body.all (·.toNat < 128) && (raw || go body)
where
  go : Chars → Bool
    | [] => true
    | '\\' :: 'x' :: rest => (hexDigits 2 0 rest).isSome && go rest
    | '\\' :: _ :: rest => go rest
    | _ :: rest => go rest

end CodeAudit.Syntax.Literal

/-! Readers of expressions, from atoms up to conditional expressions and lambdas. -/

namespace CodeAudit.Syntax.Expression

open Reader

def lift {α : Type} : Option α → Reader α
  | some a => pure a
  | none => failure

def stringTokens : Reader (List (StringFlags × Chars × Nat)) :=
  many (do
    let line ← here
    match ← peek with
    | .string flags body => advance; return (flags, body, line)
    | _ => failure)

variable (g : Grammar)

def strings : Reader Node := do
  let start ← here
  let parts ← stringTokens
  if parts.isEmpty then failure
  if parts.all (·.1.bytes) then
    if parts.all fun (flags, body, _) => Literal.validBytes flags.raw body then
      node start (.constant .bytes) []
    else failure
  else if parts.any (·.1.bytes) then failure
  else if parts.any (·.1.formatted) then
    let values ← parts.mapM fun (flags, body, line) => do
      if flags.formatted then
        let (values, rest, _) ← lift (g.formatParts flags.raw 0 line body)
        if rest.isEmpty then return values else failure
      else
        let _ ← lift (Literal.decode flags.raw body)
        return []
    node start .joinedStr (under .values values.flatten)
  else
    let texts ← parts.mapM fun (flags, body, _) => lift (Literal.decode flags.raw body)
    node start (.constant (.text (String.ofList texts.flatten))) []

def yieldExpression : Reader Node := do
  let start ← here
  word "yield"
  if ← tryWord "from" then
    let value ← g.expression
    node start .yieldFrom [(.value, value)]
  else
    let value ← (some <$> g.starExpressions) <|> pure none
    node start .yield (under .value value.toList)

def starred (operand : Reader Node) : Reader Node := do
  let start ← here
  op "*"
  let value ← operand
  node start (.starred .load) [(.value, value)]

def starNamed : Reader Node := do
  if ← atOp "*" then starred g.bitwiseOr else g.namedExpression

def atWalrus : Reader Bool := do
  match ← peek, ← peekSecond with
  | .name s, .op ":=" => return !keywords.contains s
  | _, _ => return false

def comprehensionClause (targets : Reader Node) : Reader Node := do
  let start ← here
  let _ ← tryWord "async"
  word "for"
  let target ← targets
  word "in"
  let iter ← g.disjunction
  let ifs ← many (do word "if"; g.disjunction)
  node start .comprehension ([(.target, target), (.iter, iter)] ++ under .ifs ifs)

def targetList : Reader Node := do
  let start ← here
  let first ← g.target
  if ← atOp "," then
    let rest ← commaItems g.target
    let _ ← tryOp ","
    node start (.tuple .store) (under .elements (first :: rest))
  else return first

def comprehensionClauses : Reader (List Node) := do
  let first ← comprehensionClause g (targetList g)
  let rest ← many (comprehensionClause g (targetList g))
  return first :: rest

def atComprehension : Reader Bool := do
  return (← atWord "for") || (← atWord "async")

def parenthesized : Reader Node := do
  let start ← here
  op "("
  if ← tryOp ")" then node start (.tuple .load) []
  else if ← atWord "yield" then
    let value ← yieldExpression g
    op ")"
    return value
  else
    let isStar ← atOp "*"
    let first ← starNamed g
    if !isStar && (← atComprehension) then
      let clauses ← comprehensionClauses g
      op ")"
      node start .generatorExp ((.elements, first) :: under .values clauses)
    else if ← atOp "," then
      let rest ← commaItems (starNamed g)
      let _ ← tryOp ","
      op ")"
      node start (.tuple .load) (under .elements (first :: rest))
    else if isStar then failure
    else
      op ")"
      return first

def bracketed : Reader Node := do
  let start ← here
  op "["
  if ← tryOp "]" then node start (.list .load) []
  else
    let isStar ← atOp "*"
    let first ← starNamed g
    if !isStar && (← atComprehension) then
      let clauses ← comprehensionClauses g
      op "]"
      node start .listComp ((.elements, first) :: under .values clauses)
    else
      let rest ← commaItems (starNamed g)
      let _ ← tryOp ","
      op "]"
      node start (.list .load) (under .elements (first :: rest))

def dictEntry : Reader (Option Node × Node) := do
  if ← tryOp "**" then return (none, ← g.bitwiseOr)
  else
    let key ← g.expression
    op ":"
    return (some key, ← g.expression)

def dictRest (start : Nat) (first : Option Node × Node) : Reader Node := do
  let rest ← commaItems (dictEntry g)
  let _ ← tryOp ","
  op "\x7d"
  let entries := first :: rest
  node start .dict (under .keys (entries.filterMap (·.1)) ++ under .values (entries.map (·.2)))

def braced : Reader Node := do
  let start ← here
  op "\x7b"
  if ← tryOp "\x7d" then node start .dict []
  else if ← tryOp "**" then
    let value ← g.bitwiseOr
    dictRest g start (none, value)
  else
    let isStar ← atOp "*"
    let isWalrus ← atWalrus
    let first ← starNamed g
    if ← tryOpWhen (!isStar && !isWalrus) ":" then
      let value ← g.expression
      if ← atComprehension then
        let clauses ← comprehensionClauses g
        op "\x7d"
        node start .dictComp ([(.keys, first), (.values, value)] ++ under .values clauses)
      else dictRest g start (some first, value)
    else if !isStar && (← atComprehension) then
      let clauses ← comprehensionClauses g
      op "\x7d"
      node start .setComp ((.elements, first) :: under .values clauses)
    else
      let rest ← commaItems (starNamed g)
      let _ ← tryOp ","
      op "\x7d"
      node start .set (under .elements (first :: rest))

def atom : Reader Node := do
  let start ← here
  match ← peek with
  | .string _ _ => strings g
  | .number _ => advance; node start (.constant .number) []
  | .name "None" => advance; node start (.constant .none) []
  | .name "True" => advance; node start (.constant (.bool true)) []
  | .name "False" => advance; node start (.constant (.bool false)) []
  | .name _ =>
    let id ← identifier
    node start (.name id .load) []
  | .op "..." => advance; node start (.constant .ellipsis) []
  | .op "(" => parenthesized g
  | .op "[" => bracketed g
  | .op "\x7b" => braced g
  | _ => failure

def sliceItem : Reader Node := do
  let start ← here
  let bound : Reader (List Node) := do
    match ← peek with
    | .op ":" | .op "," | .op "]" => return []
    | _ => return [← g.expression]
  let finish := fun (lower : List Node) => do
    let upper ← bound
    let step ← if ← tryOp ":" then bound else pure []
    node start .slice (under .other (lower ++ upper ++ step))
  if ← tryOp ":" then finish []
  else
    let isWalrus ← atWalrus
    let first ← g.namedExpression
    if ← tryOpWhen (!isWalrus) ":" then finish [first] else return first

def subscriptItems : Reader Node := do
  let start ← here
  let isStar ← atOp "*"
  let item : Reader Node := do
    if ← atOp "*" then starred g.expression else sliceItem g
  let first ← item
  if isStar || (← atOp ",") then
    let rest ← commaItems item
    let _ ← tryOp ","
    node start (.tuple .load) (under .elements (first :: rest))
  else return first

/-- How far the arguments of a call have come: plain ones, then named and starred ones, then named
and double-starred ones. -/
inductive Phase where
  | plain | named | doubled
deriving DecidableEq

structure Arguments where
  phase : Phase := .plain
  plain : List Node := []
  named : List Node := []

def argument (sofar : Arguments) : Reader Arguments := do
  let start ← here
  if ← tryOp "**" then
    let value ← g.expression
    let arg ← node start (.keyword none) [(.value, value)]
    return { sofar with phase := .doubled, named := arg :: sofar.named }
  else if ← atOp "*" then
    if sofar.phase = .doubled then failure
    let arg ← starred g.expression
    return { sofar with plain := arg :: sofar.plain }
  else
    match ← peek, ← peekSecond with
    | .name _, .op "=" =>
      let name ← identifier
      op "="
      let value ← g.expression
      let arg ← node start (.keyword (some name)) [(.value, value)]
      let phase := if sofar.phase = .plain then .named else sofar.phase
      return { sofar with phase, named := arg :: sofar.named }
    | _, _ =>
      if sofar.phase ≠ .plain then failure
      let arg ← g.namedExpression
      if ← atOp "=" then failure
      return { sofar with plain := arg :: sofar.plain }

/-- The arguments of a call or of a class, with both parentheses. A generator may stand alone in the
parentheses of a call. -/
def callArguments (isCall : Bool) : Reader (List Node × List Node) := do
  let start ← here
  op "("
  if ← tryOp ")" then return ([], [])
  let isStar := (← atOp "*") || (← atOp "**")
  let first ← argument g {}
  if isCall && !isStar && first.named.isEmpty && (← atComprehension) then
    let clauses ← comprehensionClauses g
    op ")"
    let gen ← node start .generatorExp (under .elements first.plain ++ under .values clauses)
    return ([gen], [])
  let all ← grow first fun sofar => do
    if (← atOp ",") && (← peekSecond) ≠ .op ")" then
      op ","
      return some (← argument g sofar)
    else return none
  let _ ← tryOp ","
  op ")"
  return (all.plain.reverse, all.named.reverse)

def trailer (start : Nat) (value : Node) : Reader (Option Node) := do
  match ← peek with
  | .op "." =>
    advance
    let name ← identifier
    return some (← node start (.attribute name .load) [(.value, value)])
  | .op "(" =>
    let (args, named) ← callArguments g true
    return some (← node start .call ((.func, value) :: (under .args args ++ under .keywords named)))
  | .op "[" =>
    advance
    let item ← subscriptItems g
    op "]"
    return some (← node start (.subscript .load) [(.value, value), (.other, item)])
  | _ => return none

def primary : Reader Node := do
  let start ← here
  let first ← atom g
  grow first (trailer g start)

def target (g : Grammar) : Reader Node := do
  if ← atOp "*" then
    let start ← here
    op "*"
    if ← atOp "*" then failure
    let value ← g.target
    node start (.starred .store) [(.value, value)]
  else
    let value ← primary g
    match value.kind with
    | .starred _ => failure
    | _ => lift (value.asTarget .store true)

def awaitPrimary : Reader Node := do
  let start ← here
  if ← tryWord "await" then
    let value ← primary g
    node start .await [(.value, value)]
  else primary g

def power : Reader Node := do
  let start ← here
  let base ← awaitPrimary g
  if ← tryOp "**" then
    let exponent ← g.factor
    node start .binOp [(.operand, base), (.operand, exponent)]
  else return base

def factor (g : Grammar) : Reader Node := do
  let start ← here
  match ← peek with
  | .op "+" | .op "-" | .op "~" =>
    advance
    let operand ← g.factor
    node start .unaryOp [(.operand, operand)]
  | _ => power g

def leftJoined (ops : List String) (operand : Reader Node) : Reader Node := do
  let start ← here
  let first ← operand
  grow first fun left => do
    match ← peek with
    | .op o =>
      if ops.contains o then
        advance
        let right ← operand
        return some (← node start .binOp [(.operand, left), (.operand, right)])
      else return none
    | _ => return none

def bitwiseOr : Reader Node :=
  leftJoined ["|"] <| leftJoined ["^"] <| leftJoined ["&"] <| leftJoined ["<<", ">>"] <|
    leftJoined ["+", "-"] <| leftJoined ["*", "/", "//", "%", "@"] (factor g)

def comparisonSign : Reader Unit := do
  match ← peek with
  | .op o => if ["==", "!=", "<=", "<", ">=", ">"].contains o then advance else failure
  | .name "in" => advance
  | .name "not" => advance; word "in"
  | .name "is" =>
    advance
    let _ ← tryWord "not"
  | _ => failure

def comparison : Reader Node := do
  let start ← here
  let first ← bitwiseOr g
  let rest ← many (do comparisonSign; bitwiseOr g)
  if rest.isEmpty then return first
  else node start .compare (under .operand (first :: rest))

def inversion (g : Grammar) : Reader Node := do
  let start ← here
  if ← tryWord "not" then
    let operand ← g.inversion
    node start .unaryOp [(.operand, operand)]
  else comparison g

def logical (joiner : String) (operand : Reader Node) : Reader Node := do
  let start ← here
  let first ← operand
  let rest ← many (do word joiner; operand)
  if rest.isEmpty then return first
  else node start .boolOp (under .values (first :: rest))

def disjunction : Reader Node := logical "or" (logical "and" (inversion g))

structure Parameters where
  posonly : List Node := []
  args : List Node := []
  defaults : List Node := []
  vararg : List Node := []
  kwonly : List Node := []
  kwDefaults : List Node := []
  kwarg : List Node := []
  slash : Bool := false
  star : Bool := false
  pending : Bool := false
  finished : Bool := false

def Parameters.toNode (ps : Parameters) (start : Nat) : Reader Node :=
  node start .arguments
    (under .posonly ps.posonly.reverse ++ under .args ps.args.reverse ++ under .vararg ps.vararg ++
      under .kwonly ps.kwonly.reverse ++ under .defaults ps.kwDefaults.reverse ++
      under .kwarg ps.kwarg ++ under .defaults ps.defaults.reverse)

def parameterName (annotated starHint : Bool) : Reader Node := do
  let start ← here
  let name ← identifier
  if ← tryOpWhen annotated ":" then
    let typeHint ← if starHint && (← atOp "*") then starred g.bitwiseOr else g.expression
    node start (.arg name) [(.typeHint, typeHint)]
  else node start (.arg name) []

def parameter (annotated : Bool) (ps : Parameters) : Reader Parameters := do
  if ps.finished then failure
  match ← peek with
  | .op "/" =>
    advance
    if ps.slash || ps.star || ps.args.isEmpty then failure
    return { ps with slash := true, posonly := ps.args, args := [] }
  | .op "*" =>
    advance
    if ps.star then failure
    if ← atOp "," then return { ps with star := true, pending := true }
    let arg ← parameterName g annotated true
    return { ps with star := true, vararg := [arg] }
  | .op "**" =>
    advance
    if ps.pending then failure
    let arg ← parameterName g annotated false
    return { ps with kwarg := [arg], finished := true }
  | _ =>
    let arg ← parameterName g annotated false
    let default ← if ← tryOp "=" then some <$> g.expression else pure none
    if ps.star then
      return { ps with kwonly := arg :: ps.kwonly, kwDefaults := default.toList ++ ps.kwDefaults,
                       pending := false }
    else match default with
      | some d => return { ps with args := arg :: ps.args, defaults := d :: ps.defaults }
      | none => if ps.defaults.isEmpty then return { ps with args := arg :: ps.args } else failure

def parameters (annotated : Bool) (close : String) : Reader Node := do
  let start ← here
  if ← atOp close then Parameters.toNode {} start
  else
    let first ← parameter g annotated {}
    let all ← grow first fun ps => do
      if (← atOp ",") && (← peekSecond) ≠ .op close then
        op ","
        return some (← parameter g annotated ps)
      else return none
    if all.pending then failure
    let _ ← tryOp ","
    if ← atOp close then all.toNode start else failure

def lambda (g : Grammar) : Reader Node := do
  let start ← here
  word "lambda"
  let args ← parameters g false ":"
  op ":"
  let body ← g.expression
  node start .lambda [(.args, args), (.body, body)]

def expression (g : Grammar) : Reader Node := do
  if ← atWord "lambda" then lambda g
  else
    let start ← here
    let value ← disjunction g
    if ← tryWord "if" then
      let test ← disjunction g
      word "else"
      let other ← g.expression
      node start .ifExp [(.test, test), (.body, value), (.orelse, other)]
    else return value

def namedExpression : Reader Node := do
  if ← atWalrus then
    let start ← here
    let id ← identifier
    let name ← node start (.name id .store) []
    op ":="
    let value ← g.expression
    node start .namedExpr [(.target, name), (.value, value)]
  else
    let value ← expression g
    if ← atOp ":=" then failure else return value

def starExpressions : Reader Node := do
  let start ← here
  let item : Reader Node := do
    if ← atOp "*" then starred (bitwiseOr g) else expression g
  let first ← item
  if ← atOp "," then
    let rest ← commaItems item
    let _ ← tryOp ","
    node start (.tuple .load) (under .elements (first :: rest))
  else return first

end CodeAudit.Syntax.Expression

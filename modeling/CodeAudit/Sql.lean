import CodeAudit.Fault
import CodeAudit.Pattern.Basic

/-! Tokens of SQL text, and the most common words of SQL. The first rule that matches makes a token;
a character that no rule takes is a token of its own. Letter case does not matter. -/

namespace CodeAudit.Sql

def verbs : List String :=
  ["SELECT", "INSERT", "DELETE", "UPDATE", "UPSERT", "REPLACE", "MERGE", "COMMIT", "ROLLBACK", "START"]

def definitions : List String := ["DROP", "CREATE", "ALTER", "TRUNCATE"]

def grants : List String := ["GRANT", "REVOKE"]

def typeNames : List String := Text.words "
ARRAY BIGINT BIGNUMERIC BINARY BIT BLOB BOOLEAN CHAR DATE DEC DECIMAL FILE_TYPE FLOAT INT INT8
INTEGER INTERVAL LONG MAP NATURALN NUMBER NUMERIC NVARCHAR PLS_INTEGER POSITIVE POSITIVEN REAL ROWID
ROWLABEL ROWNUM SERIAL SERIAL8 SIGNED SIGNTYPE SIMPLE_DOUBLE SIMPLE_FLOAT SIMPLE_INTEGER SMALLINT
STRING STRUCT SYS_REFCURSOR TEXT TIMESTAMP TINYINT UNSIGNED UROWID UTL_FILE VARCHAR VARCHAR2 VARIANT
VARYING"

def keywords : List String := Text.words "
ABORT ADD AFTER ALL AND ANY AS AUTO_INCREMENT BEFORE BEGIN BETWEEN BY CACHE CALL CASCADE CASE CAST
CHARACTER CHECK CLOSE COLLATE COLUMN COMMENT CONCAT CONSTRAINT COUNT CROSS CURRENT CURRENT_DATE
CURRENT_TIME CURRENT_TIMESTAMP CURRENT_USER CURSOR DATA DATABASE DAY DECLARE DEFAULT DESCRIBE
DISTINCT DO DOUBLE EACH ELSE ELSIF END ESCAPE EXCEPT EXEC EXECUTE EXISTS EXIT EXPLAIN FALSE FETCH
FIRST FOR FOREACH FOREIGN FROM FULL FUNCTION GO GROUP HAVING HOST HOUR IDENTITY IF ILIKE IN INDEX
INNER INTERSECT INTO IS ISNULL JOIN JSON KEY LANGUAGE LAST LATERAL LEFT LENGTH LEVEL LIKE LIMIT LOAD
LOCK LOOP LOWER MATCH MAX MIN MINUS MINUTE MOD MODE MONTH NAMES NATURAL NEW NEXT NO NONE NOT NOTNULL
NOW NULL NULLIF OF OFF OFFSET OLD ON ONLY OPEN OPTION OR ORDER OUT OUTER OUTPUT OVER OWNER PARTITION
POSITION PRIMARY PRINT PRIVILEGES PROCEDURE PUBLIC RAISE RANGE READ RECURSIVE REFERENCES RENAME
RESTRICT RETURN RETURNING RETURNS RIGHT RLIKE ROLE ROW ROWS SAVEPOINT SCHEMA SECOND SEQUENCE
SESSION_USER SET SHOW SIZE SOME SOURCE SPACE SQL STATEMENT SUBSTRING SUM SYSTEM SYSTEM_USER TABLE
TABLESPACE TEMP TEMPORARY THEN TIME TO TRANSACTION TRIGGER TRIM TRUE TYPE UNION UNIQUE UNKNOWN UNTIL
UPPER USAGE USE USER USING VALUES VERSION VIEW WEEK WHEN WHERE WHILE WINDOW WITHOUT WORK WRITE XML
YEAR ZONE"

open Pattern (text all oneOf many few optional word charOf charNotOf wordChar blank digit)

inductive TokenKind where
  | remark | hint | block | lineEnd | space | assignment | wildcard | name | symbol | string | quotation
  | number | hexadecimal | placeholder | command | keyword | verb | definition | grant | withClause | order
  | zone | builtin | comparison | operator | punctuation | unknown
deriving DecidableEq

structure Token where
  kind : TokenKind
  text : String

namespace Token

variable (t : Token)

def isSpace : Bool := t.kind = .space || t.kind = .lineEnd

def isComment : Bool := t.kind = .remark || t.kind = .hint || t.kind = .block

def isKeyword : Bool := [TokenKind.keyword, .verb, .definition, .grant, .withClause, .order, .zone].contains t.kind

def upper : String := upperText t.text

def isSign (sign : String) : Bool := t.kind = .punctuation && t.text = sign

end Token

def letter : Pattern := .set false [.range 'A' 'Z', .range 'À' 'Ü']

def letterOrLine : Pattern := .set false [.one '_', .range 'A' 'Z', .range 'À' 'Ü']

def identifier : Pattern := .seq letter (many wordChar)

def lineStop : Pattern := oneOf [text "\r\n", .lit '\r', .lit '\n', .textEnd]

def anything : Pattern := .set false [.blank, .nonBlank]

def gap : Pattern := Pattern.some blank

def digits : Pattern := Pattern.some digit

def wordChars : Pattern := Pattern.some wordChar

def minus : Pattern := optional (.lit '-')

def quotedBy (c : Char) (escape : List Pattern) : Pattern :=
  all [.lit c, many (oneOf ([text (String.ofList [c, c])] ++ escape ++ [.set true [.one c]])), .lit c]

variable (ws : String)

def oneWord : Pattern := oneOf ((Text.words ws).map text)

def phrase : Pattern := .seq (all (((Text.words ws).map text).intersperse gap)) .boundary

def beforeNoLetter : Pattern := .ahead true letterOrLine

def placeholderMark : Pattern := .behind true 1 wordChar

def rules : List (Pattern × TokenKind) := [
  (all [.alt (text "--") (text "# "), .lit '+', few .any, lineStop], .hint),
  (all [text "/*+", few anything, text "*/"], .hint),
  (all [.alt (text "--") (text "# "), few .any, lineStop], .remark),
  (all [text "/*", few anything, text "*/"], .block),
  (oneOf [text "\r\n", .lit '\r', .lit '\n'], .lineEnd),
  (blank, .space),
  (text ":=", .assignment),
  (text "::", .punctuation),
  (.lit '*', .wildcard),
  (quotedBy '\x60' [], .name),
  (quotedBy '´' [], .name),
  (all [.group 1 (all [.behind true 1 (.set false [.wordChar, .one '"', .one '$']), .lit '$',
    optional (.seq letterOrLine (many wordChar)), .lit '$']), few anything, .same 1], .quotation),
  (.lit '?', .placeholder),
  (all [.lit '%', optional (all [.lit '(', wordChars, .lit ')']), .lit 's'], .placeholder),
  (all [placeholderMark, charOf "$:?", wordChars], .placeholder),
  (.seq (.lit '\\') (wordChars), .command),
  (.seq (oneWord "CASE IN VALUES USING FROM AS") .boundary, .keyword),
  (all [oneOf [.lit '@', text "##", .lit '#'], letter, wordChars], .name),
  (.seq identifier (.ahead false (.seq (many blank) (.lit '.'))), .name),
  (.seq (.behind false 1 (.lit '.')) identifier, .name),
  (.seq identifier (.ahead false (.lit '(')), .name),
  (all [minus, text "0x", Pattern.some (.set false [.digit, .range 'A' 'F'])], .hexadecimal),
  (all [minus, digits, optional (.seq (.lit '.') (digits)),
    .lit 'E', minus, digits], .number),
  (all [beforeNoLetter, minus,
    .alt (all [digits, .lit '.', many digit]) (.seq (.lit '.') (digits)),
    beforeNoLetter], .number),
  (all [beforeNoLetter, minus, digits, beforeNoLetter], .number),
  (quotedBy '\x27' [text "\\'"], .string),
  (quotedBy '"' [text "\\\""], .symbol),
  (.alt (text "\"\"") (all [.lit '"', few .any, .set true [.one '\\'], .lit '"']), .symbol),
  (.seq (.behind true 1 (.set false [.wordChar, .one ']', .one ')']))
    (all [.lit '[', Pattern.some (charNotOf "]["), .lit ']']), .name),
  (.seq (optional (.alt
    (.seq (optional (.seq (oneWord "LEFT RIGHT FULL") gap))
      (optional (.seq (oneWord "INNER OUTER STRAIGHT") gap)))
    (optional (.seq (oneWord "CROSS NATURAL") gap)))) (.seq (text "JOIN") .boundary),
    .keyword),
  (all [text "END", optional (.seq gap (oneWord "IF LOOP WHILE")), .boundary], .keyword),
  (phrase "NOT NULL", .keyword),
  (all [oneWord "ASC DESC",
    optional (all [gap, text "NULLS", gap, oneWord "FIRST LAST"]), .boundary], .order),
  (all [text "NULLS", gap, oneWord "FIRST LAST", .boundary], .order),
  (phrase "UNION ALL", .keyword),
  (all [text "CREATE", optional (all [gap, text "OR", gap, text "REPLACE"]), .boundary], .definition),
  (phrase "DOUBLE PRECISION", .builtin),
  (phrase "GROUP BY", .keyword),
  (phrase "ORDER BY", .keyword),
  (phrase "PRIMARY KEY", .keyword),
  (phrase "HANDLER FOR", .keyword),
  (all [text "GO", blank, digits, .boundary], .keyword),
  (all [text "LATERAL", gap, text "VIEW", gap,
    oneWord "EXPLODE INLINE PARSE_URL_TUPLE POSEXPLODE STACK", .boundary], .keyword),
  (all [.alt (text "AT") (text "WITH'"), gap, text "TIME", gap, text "ZONE", gap, .lit '\x27',
    Pattern.some (.set true [.one '\x27']), .lit '\x27'], .zone),
  (all [optional (.seq (text "NOT") gap), oneWord "LIKE ILIKE RLIKE REGEXP",
    .boundary], .comparison)]

def wordKind (w : String) : TokenKind :=
  let u := upperText w
  if verbs.contains u then .verb
  else if definitions.contains u then .definition
  else if grants.contains u then .grant
  else if u = "WITH" then .withClause
  else if keywords.contains u then .keyword
  else if typeNames.contains u then .builtin
  else if u = "DIV" then .operator
  else .name

def plainWord : Pattern := .seq wordChar (many (.set false [.one '$', .one '#', .wordChar]))

def signRules : List (Pattern × TokenKind) := [
  (charOf ";:()[],.", .punctuation),
  (oneOf (["->>", "->", "#>>", "#>", "@>", "<@", "?|", "?&", "-", "#-"].map text), .operator),
  (Pattern.some (charOf "<>=~!"), .comparison),
  (Pattern.some (charOf "+/@#%^&|-"), .operator)]

variable (c : Pattern.Cursor)

def ruleMatch? (kind : String → TokenKind) (p : Pattern) : Option (Token × Pattern.Cursor) := do
  let (m, c') ← Pattern.matchAt { ignoreCase := true } p false c
  let text := String.ofList m.text
  return (⟨kind text, text⟩, c')

def firstMatch? (rules : List (Pattern × TokenKind)) : Option (Token × Pattern.Cursor) :=
  rules.findSome? fun (p, kind) => ruleMatch? c (fun _ => kind) p

def tokenAt : Option (Token × Pattern.Cursor) :=
  firstMatch? c rules <|> ruleMatch? c wordKind plainWord <|> firstMatch? c signRules <|>
    c.next?.map fun (d, c') => (⟨.unknown, d.toString⟩, c')

def tokensFrom : Nat → Pattern.Cursor → List Token
  | 0, _ => []
  | fuel + 1, c =>
    match tokenAt c with
    | none => []
    | some (t, c') => t :: tokensFrom fuel c'

def tokens (s : String) : List Token := tokensFrom (s.length + 1) (Pattern.Cursor.start s.toList)

/-! Groups of tokens at the outermost level of a statement. A group is known by its sort and its
text alone, since no rule looks inside another group. -/

inductive GroupKind where
  | comment | brackets | parenthesis | case | condition | loop | block | over | function | filter | identifier
  | typedLiteral | operation | comparison | assignment | identifierList | values
deriving DecidableEq

inductive Part where
  | token (t : Token)
  | group (kind : GroupKind) (text : String)

namespace Part

def text : Part → String
  | .token t => t.text
  | .group _ text => text

def token? : Part → Option Token
  | .token t => some t
  | .group .. => none

variable (p : Part)

def isSpace : Bool := p.token?.any (·.isSpace)

def hasKind (kinds : List TokenKind) : Bool := p.token?.any (kinds.contains ·.kind)

def isKeyword : Bool := p.token?.any (·.isKeyword)

def isWord (words : List String) : Bool := p.token?.any fun t => t.kind = .keyword && words.contains t.upper

def isSign (sign : String) : Bool := p.token?.any (·.isSign sign)

def isOf (kinds : List GroupKind) : Part → Bool
  | .token _ => false
  | .group kind _ => kinds.contains kind

def isComment : Part → Bool
  | .token t => t.isComment
  | .group kind _ => kind = .comment

end Part

variable (ps : List Part)

def partsText : String := String.join (ps.map (·.text))

def nextPart (place : Nat) : Option (Nat × Part) :=
  ((ps.zipIdx.drop (place + 1)).find? fun e => !e.1.isSpace).map fun e => (e.2, e.1)

def previousPart (place : Nat) : Option (Nat × Part) :=
  ((ps.zipIdx.take place).reverse.find? fun e => !e.1.isSpace).map fun e => (e.2, e.1)

def findFrom (p : Part → Bool) (ps : List Part) (place : Nat) : Option Nat :=
  ((ps.zipIdx.drop place).find? fun e => p e.1).map (·.2)

variable (kind : GroupKind)

def closeUp (start stop : Nat) (ps : List Part) : List Part :=
  ps.take start ++ .group kind (partsText ((ps.drop start).take (stop + 1 - start))) :: ps.drop (stop + 1)

structure Opening where
  parts : List Part
  closed : Nat := 0
  opens : List Nat := []

def groupMatching (opening closing : Part → Bool) (ps : List Part) : List Part :=
  (ps.zipIdx.foldl (fun (s : Opening) (p, i) =>
    let place := i - s.closed
    if opening p then { s with opens := place :: s.opens }
    else if closing p then
      match s.opens with
      | [] => s
      | start :: opens =>
        { parts := closeUp kind start place s.parts, closed := s.closed + (place - start), opens := opens }
    else s) { parts := ps }).parts

/-- Makes groups around the parts of a sort, from a place on. `span` gives the kind, the first and
the last place of the group around such a part. -/
def groupAt (sort : Part → Bool) (span : List Part → Nat → Option (GroupKind × Nat × Nat)) :
    Nat → Nat → List Part → List Part
  | 0, _, ps => ps
  | fuel + 1, place, ps =>
    match findFrom sort ps place with
    | none => ps
    | some here =>
      match span ps here with
      | some (kind, start, stop) => groupAt sort span fuel (start + 1) (closeUp kind start stop ps)
      | none => groupAt sort span fuel (here + 1) ps

def groupAll (sort : Part → Bool) (span : List Part → Nat → Option (GroupKind × Nat × Nat)) : List Part :=
  groupAt sort span (ps.length + 1) 0 ps

def groupFrom (starts : Part → Bool) (stop : List Part → Nat → Option Nat) : List Part :=
  groupAll ps starts fun ps start => (stop ps start).map (kind, start, ·)

def groupComments : List Part :=
  groupFrom ps .comment (·.hasKind [.remark, .hint, .block]) fun ps start =>
    (findFrom (fun p => !(p.isComment || p.hasKind [.lineEnd])) ps start).map (· - 1)

/-- How parts are joined by a part between them. `reach` gives the first and the last place of the
new group, from the place before, the place of the joining part and the place after. -/
structure Joining where
  kind : GroupKind := .identifier
  joins : Part → Bool
  before : Part → Bool := fun _ => true
  after : Part → Bool := fun _ => true
  endsText : Bool := false
  reach : List Part → Nat → Nat → Nat → Nat × Nat := fun _ before _ after => (before, after)

structure Join where
  parts : List Part
  closed : Nat := 0
  previous : Option (Nat × Part) := none

def Joining.step (j : Joining) (s : Join) (p : Part) (i : Nat) : Join :=
  if i < s.closed || p.isSpace then s
  else
    let place := i - s.closed
    let following := nextPart s.parts place
    match s.previous with
    | some (before, q) =>
      if j.joins p && j.before q && (following.map (j.after ·.2)).getD j.endsText then
        let (start, stop) := j.reach s.parts before place ((following.map (·.1)).getD place)
        let parts := closeUp j.kind start stop s.parts
        { parts, closed := s.closed + (stop - start), previous := (parts[start]?).map (start, ·) }
      else { s with previous := (place, p) }
    | none => { s with previous := (place, p) }

def Joining.run (j : Joining) (ps : List Part) : List Part :=
  (ps.zipIdx.foldl (fun s (p, i) => j.step s p i) { parts := ps }).parts

def plainKinds : List TokenKind := [.number, .string, .symbol, .name, .placeholder]

def joinPeriod : Joining where
  joins p := p.isSign "." || p.token?.any fun t => t.kind = .operator && (t.text = "->" || t.text = "->>")
  before p := p.isOf [.brackets, .identifier] || p.hasKind [.name, .symbol]
  endsText := true
  reach ps before place after :=
    let fits := ps[after]?.any fun p =>
      p.isOf [.brackets, .function] || p.hasKind [.name, .symbol, .wildcard, .string]
    (before, if fits then after else place)

def joinArray : Joining where
  joins p := p.isOf [.brackets]
  before p := p.isOf [.brackets, .identifier, .function] || p.hasKind [.name, .symbol]
  endsText := true
  reach _ before place _ := (before, place)

def joinCast : Joining where
  joins p := p.isSign "::"

def joinZone : Joining where
  joins p := p.hasKind [.zone]
  after p := p.isWord ["AS"] || p.hasKind [.string]

def joinTyped : Joining where
  kind := .typedLiteral
  joins p := p.hasKind [.builtin] || p.isWord ["TIMESTAMP"]
  after p := p.hasKind [.string]
  reach _ _ place after := (place, after)

def joinUnit : Joining where
  kind := .typedLiteral
  joins p := p.isOf [.typedLiteral]
  after p := p.isWord ["DAY", "HOUR", "MINUTE", "MONTH", "SECOND", "YEAR"]
  reach _ _ place after := (place, after)

variable (p : Part)

def isOperand : Bool :=
  p.isOf [.brackets, .parenthesis, .function, .identifier, .operation, .typedLiteral] ||
    p.hasKind plainKinds || p.isWord ["CURRENT_DATE", "CURRENT_TIME", "CURRENT_TIMESTAMP"]

def joinOperator : Joining where
  kind := .operation
  joins p := p.hasKind [.operator, .wildcard]
  before := isOperand
  after := isOperand

def isComparable : Bool :=
  p.isOf [.parenthesis, .function, .identifier, .operation, .typedLiteral] || p.hasKind plainKinds ||
    (p.isKeyword && upperText p.text = "NULL")

def joinComparison : Joining where
  kind := .comparison
  joins p := p.hasKind [.comparison]
  before := isComparable
  after := isComparable

def joinAs : Joining where
  joins p := p.isKeyword && upperText p.text = "AS"
  before p := (p.isKeyword && upperText p.text = "NULL") || !p.isKeyword
  after p := !p.hasKind [.verb, .definition, .withClause]

def joinAssignment : Joining where
  kind := .assignment
  joins p := p.hasKind [.assignment]
  before p := !p.hasKind [.keyword]
  after p := !p.hasKind [.keyword]
  reach ps before _ after := (before, (findFrom (·.isSign ";") ps (after + 1)).getD after)

def isListed : Bool :=
  p.isOf [.function, .case, .identifier, .comparison, .identifierList, .operation] ||
    p.hasKind (plainKinds ++ [.keyword, .wildcard])

def joinList : Joining where
  kind := .identifierList
  joins p := p.isSign ","
  before := isListed
  after := isListed

def endOfFilter (start : Nat) : Option Nat :=
  let stops := ["ORDER BY", "GROUP BY", "LIMIT", "UNION", "UNION ALL", "EXCEPT", "HAVING", "RETURNING", "INTO"]
  some (((findFrom (·.isWord stops) ps (start + 1)).getD ps.length) - 1)

def followedBy (p : Part → Bool) (ps : List Part) (start : Nat) : Option Nat := do
  let (place, q) ← nextPart ps start
  if p q then some place else none

def endOfFunction (start : Nat) : Option Nat :=
  (followedBy (·.isOf [.parenthesis]) ps start).map fun place => (followedBy (·.isOf [.over]) ps place).getD place

def groupFunctions : List Part :=
  let has := fun (w : String) => ps.any fun p => upperText p.text = w
  if has "CREATE" && has "TABLE" && !(ps.any fun p => p.text = "AS") then ps
  else groupFrom ps .function (·.hasKind [.name, .builtin, .placeholder]) endOfFunction

def groupOrder : List Part :=
  groupAll ps (·.hasKind [.order]) fun ps here => do
    let (before, p) ← previousPart ps here
    if p.isOf [.identifier] || p.hasKind [.number, .hexadecimal] then some (.identifier, before, here) else none

def isNamed : Bool :=
  p.isOf [.parenthesis, .function, .case, .identifier, .operation, .comparison] ||
    p.hasKind [.number, .hexadecimal]

def alignComments : List Part :=
  groupAll ps (·.isOf [.comment]) fun ps here =>
    match previousPart ps here with
    | some (before, .group kind _) => some (kind, before, here)
    | _ => none

def groupValues : List Part :=
  let grouped : Option (List Part) := do
    let start ← findFrom (·.isWord ["VALUES"]) ps 0
    let (_, stop) ← (ps.zipIdx.drop (start + 1)).reverse.find? fun e => e.1.isOf [.parenthesis]
    return closeUp .values start stop ps
  grouped.getD ps

def word (words : List String) : Part → Bool := fun p => p.isWord words

def partsOf (ts : List Token) : List Part :=
  let ps := groupComments (ts.map Part.token)
  let ps := groupMatching .brackets (·.isSign "[") (·.isSign "]") ps
  let ps := groupMatching .parenthesis (·.isSign "(") (·.isSign ")") ps
  let ps := groupMatching .case (word ["CASE"]) (word ["END"]) ps
  let ps := groupMatching .condition (word ["IF"]) (word ["END IF"]) ps
  let ps := groupMatching .loop (word ["FOR", "FOREACH"]) (word ["END LOOP"]) ps
  let ps := groupMatching .block (word ["BEGIN"]) (word ["END"]) ps
  let ps := groupFrom ps .over (word ["OVER"])
    (followedBy fun p => p.isOf [.parenthesis] || p.hasKind [.name, .builtin, .placeholder])
  let ps := groupFrom (groupFunctions ps) .filter (word ["WHERE"]) endOfFilter
  let ps := joinArray.run (joinPeriod.run ps)
  let ps := groupOrder (groupFrom ps .identifier (·.hasKind [.symbol, .name]) fun _ start => some start)
  let ps := [joinCast, joinZone, joinTyped, joinUnit, joinOperator, joinComparison, joinAs].foldl
    (fun ps j => j.run ps) ps
  let ps := groupFrom ps .identifier isNamed (followedBy (·.isOf [.identifier]))
  groupValues (joinList.run (alignComments (joinAssignment.run ps)))

/-! Statements of SQL text. A semicolon ends a statement unless it stands in brackets or in the body
of a definition. A statement shows its outermost pieces. -/

structure Depth where
  level : Int := 0
  beginDepth : Nat := 0
  defining : Bool := false
  inCase : Bool := false

def Depth.after (d : Depth) (t : Token) : Depth :=
  if t.isSign "(" then { d with level := d.level + 1 }
  else if t.isSign ")" then { d with level := d.level - 1 }
  else if !t.isKeyword then d
  else if t.kind = .definition && Text.startsWith "CREATE" t.upper then { d with defining := true }
  else if t.upper = "DECLARE" && d.defining && d.beginDepth = 0 then { d with level := d.level + 1 }
  else if t.upper = "BEGIN" then
    { d with beginDepth := d.beginDepth + 1, level := if d.defining then d.level + 1 else d.level }
  else if t.upper = "END" then
    if d.inCase then { d with inCase := false, level := d.level - 1 }
    else { d with beginDepth := d.beginDepth - 1, level := d.level - 1 }
  else if ["IF", "FOR", "WHILE", "CASE"].contains t.upper && d.defining && 0 < d.beginDepth then
    { d with inCase := d.inCase || t.upper = "CASE", level := d.level + 1 }
  else if ["END IF", "END FOR", "END WHILE"].contains t.upper then { d with level := d.level - 1 }
  else d

def endsStatement (d : Depth) (t : Token) : Bool :=
  (d.level ≤ 0 && t.isSign ";") ||
    (t.kind = .keyword && (Text.words t.text).head? = some "GO")

def cutStatements : Depth → Bool → List Token → List Token → List (List Token)
  | _, _, current, [] => if current.all Token.isSpace then [] else [current.reverse]
  | d, done, current, t :: rest =>
    let fresh := done && t.kind ≠ .space && t.kind ≠ .remark
    let d := (if fresh then {} else d).after t
    let before := if fresh then [] else current
    let later := cutStatements d (endsStatement d t || (done && !fresh)) (t :: before) rest
    if fresh then current.reverse :: later else later

def statements (s : String) : List (List Token) := cutStatements {} false [] (tokens s)

def nesting (opened closed : String) : List Nat → List Token → Nat
  | _, [] => 0
  | depths, t :: rest =>
    if t.isSign opened then nesting opened closed (0 :: depths) rest
    else if t.isSign closed then
      match depths with
      | [] => nesting opened closed [] rest
      | [n] => max (n + 1) (nesting opened closed [] rest)
      | n :: m :: more => nesting opened closed (max m (n + 1) :: more) rest
    else nesting opened closed depths rest

def maxNesting : Nat := 960

variable (ts : List Token)

def checkNesting : Outcome Unit :=
  if maxNesting < max (nesting "(" ")" [] ts) (nesting "[" "]" [] ts) then
    .error (.tooDeep "Maximum recursion depth exceeded")
  else .ok ()

def statementText : String := String.join (ts.map (·.text))

structure Piece where
  text : String
  isKeyword : Bool := false
  isGroup : Bool := false
  kind : String := "Token"
  line : Option Int := none

def Piece.lineNumber (p : Piece) : Outcome Int :=
  match p.line with
  | some n => .ok n
  | none => .error (.noAttribute ("'" ++ p.kind ++ "' object has no attribute 'lineno'"))

def Part.piece : Part → Piece
  | .token t => { text := t.text, isKeyword := t.isKeyword }
  -- Where the first piece is a group other than a comment, the statement is of no type that is
  -- looked at.
  | .group kind text => { text, isGroup := true, kind := if kind = .comment then "Comment" else "TokenList" }

def pieces : List Piece := (partsOf ts).map Part.piece

def piecesText (ps : List Piece) : String := String.join (ps.map (·.text))

def verbAfterNames : List Part → Option String
  | p :: q :: rest =>
    if p.isOf [.identifier, .identifierList] then
      if q.hasKind [.verb] then some (upperText q.text) else verbAfterNames rest
    else verbAfterNames (q :: rest)
  | _ => none

def statementType : String :=
  let ps := (partsOf ts).filter fun p => !p.isSpace
  match ps.dropWhile (·.isComment) with
  | .token t :: rest =>
    if t.kind = .verb || t.kind = .definition then t.upper
    else if t.kind = .withClause then (verbAfterNames rest).getD "UNKNOWN"
    else "UNKNOWN"
  | _ => "UNKNOWN"

/-- A statement as the reader of SQL text gives it. -/
structure Statement where
  text : String
  type : String
  pieces : List Piece

def parse (sql : String) : Outcome (List Statement) := do
  let found := statements sql
  found.forM checkNesting
  return found.map fun ts => ⟨statementText ts, statementType ts, pieces ts⟩

end CodeAudit.Sql

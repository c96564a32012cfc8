/-! The 256-bit digest of bytes, written in hexadecimal digits. -/

namespace CodeAudit.Digest

structure Words where
  a : UInt32
  b : UInt32
  c : UInt32
  d : UInt32
  e : UInt32
  f : UInt32
  g : UInt32
  h : UInt32

def Words.start : Words :=
  ⟨0x6a09e667, 0xbb67ae85, 0x3c6ef372, 0xa54ff53a, 0x510e527f, 0x9b05688c, 0x1f83d9ab, 0x5be0cd19⟩

def cubeRoot (n : Nat) : Nat :=
  (List.range 36).foldr (fun i r => let s := r + 1 <<< i; if s * s * s ≤ n then s else r) 0

/-- The first binary places of the cube roots of the first 64 primes. -/
def roundConstants : List UInt32 :=
  let primes := (List.range 312).filter fun n => 1 < n && (List.range n).all fun d => d < 2 || n % d != 0
  primes.map fun p => UInt32.ofNat (cubeRoot (p <<< 96))

def turn (x n : UInt32) : UInt32 := (x >>> n) ||| (x <<< (32 - n))

def schedule (block : Array UInt32) : Array UInt32 :=
  (List.range 48).foldl (fun w i =>
    let x := w.getD (i + 1) 0
    let y := w.getD (i + 14) 0
    let low := turn x 7 ^^^ turn x 18 ^^^ (x >>> 3)
    let high := turn y 17 ^^^ turn y 19 ^^^ (y >>> 10)
    w.push (w.getD i 0 + low + w.getD (i + 9) 0 + high)) block

def round (s : Words) (k w : UInt32) : Words :=
  let high := turn s.e 6 ^^^ turn s.e 11 ^^^ turn s.e 25
  let choice := (s.e &&& s.f) ^^^ ((~~~ s.e) &&& s.g)
  let first := s.h + high + choice + k + w
  let low := turn s.a 2 ^^^ turn s.a 13 ^^^ turn s.a 22
  let majority := (s.a &&& s.b) ^^^ (s.a &&& s.c) ^^^ (s.b &&& s.c)
  ⟨first + (low + majority), s.a, s.b, s.c, s.d + first, s.e, s.f, s.g⟩

def mix (s : Words) (block : Array UInt32) : Words :=
  let w := (schedule block).toList
  let t := (roundConstants.zip w).foldl (fun s (k, w) => round s k w) s
  ⟨s.a + t.a, s.b + t.b, s.c + t.c, s.d + t.d, s.e + t.e, s.f + t.f, s.g + t.g, s.h + t.h⟩

def wordOf (a b c d : UInt8) : UInt32 :=
  (a.toUInt32 <<< 24) ||| (b.toUInt32 <<< 16) ||| (c.toUInt32 <<< 8) ||| d.toUInt32

def wordsOf : List UInt8 → List UInt32
  | a :: b :: c :: d :: rest => wordOf a b c d :: wordsOf rest
  | _ => []

def padded (bytes : List UInt8) : List UInt8 :=
  let n := bytes.length
  let zeros := (119 - n % 64) % 64
  let bits := n * 8
  bytes ++ 0x80 :: List.replicate zeros 0 ++
    (List.range 8).map fun i => UInt8.ofNat (bits / Nat.pow 256 (7 - i) % 256)

def mixAll : Nat → Words → List UInt32 → Words
  | 0, s, _ => s
  | n + 1, s, words => mixAll n (mix s (words.take 16).toArray) (words.drop 16)

def wordText (w : UInt32) : String :=
  String.ofList ((List.range 8).map fun i => Nat.digitChar (w.toNat / Nat.pow 16 (7 - i) % 16))

def sha256 (bytes : List UInt8) : String :=
  let words := wordsOf (padded bytes)
  let s := mixAll (words.length / 16) .start words
  String.join ([s.a, s.b, s.c, s.d, s.e, s.f, s.g, s.h].map wordText)

end CodeAudit.Digest

/-! Digests of passwords that take long to compute. A table, at first the digits of π, is stirred
over and over by the password and a salt, and then enciphers a fixed text. -/

namespace CodeAudit.Digest.Password

/-- The arc tangent of a fraction as an alternating sum: `power` is a power of the fraction, divided
by the square of its denominator from term to term, and `fuel` bounds the number of terms. -/
def alternating (square : Nat) : Nat → Nat → Nat → Int
  | 0, _, _ => 0
  | fuel + 1, power, k =>
    if power = 0 then 0 else (power / k : Nat) - alternating square fuel (power / square) (k + 2)

def arctan (unit n : Nat) : Int := alternating (n * n) unit.log2 (unit / n) 1

/-- The first bits of π behind the point. More are computed than are wanted, because the sums are
rounded. -/
def fractionOfPi (bits : Nat) : Nat :=
  let unit := Nat.pow 2 (bits + 64)
  ((4 * (4 * arctan unit 5 - arctan unit 239) - 3 * unit) / (Nat.pow 2 64 : Nat)).toNat

def keySize : Nat := 18

def tableSize : Nat := keySize + 4 * 256

abbrev Table := Array UInt32

def startTable : Table :=
  let digits := fractionOfPi (32 * tableSize)
  ((List.range tableSize).map fun i => UInt32.ofNat (digits >>> (32 * (tableSize - 1 - i)))).toArray

variable (t : Table)

def throughBoxes (x : UInt32) : UInt32 :=
  let taken := fun (box : Nat) (byte : UInt32) => t.getD (keySize + 256 * box + (byte &&& 255).toNat) 0
  ((taken 0 (x >>> 24) + taken 1 (x >>> 16)) ^^^ taken 2 (x >>> 8)) + taken 3 x

def rounds (t : Table) : Nat → Nat → UInt32 → UInt32 → UInt32 × UInt32
  | 0, _, left, right => (left, right)
  | n + 1, place, left, right =>
    let right := right ^^^ throughBoxes t left ^^^ t.getD place 0
    let left := left ^^^ throughBoxes t right ^^^ t.getD (place + 1) 0
    rounds t n (place + 2) left right

def encipher (left right : UInt32) : UInt32 × UInt32 :=
  let (left, right) := rounds t 8 1 (left ^^^ t.getD 0 0) right
  (right ^^^ t.getD 17 0, left)

def cycledWords (bytes : List UInt8) (count : Nat) : List UInt32 :=
  let stream := bytes.toArray
  let byte := fun i => if stream.isEmpty then 0 else stream.getD (i % stream.size) 0
  (List.range count).map fun i => wordOf (byte (4 * i)) (byte (4 * i + 1)) (byte (4 * i + 2)) (byte (4 * i + 3))

def mixKey (key : List UInt32) : Table :=
  (key.zipIdx).foldl (fun t (w, i) => t.setIfInBounds i (t.getD i 0 ^^^ w)) t

def replacePairs (salt : Table) : Nat → Nat → UInt32 → UInt32 → Table → Table
  | 0, _, _, _, t => t
  | n + 1, place, left, right, t =>
    let (left, right) := encipher t (left ^^^ salt.getD (place % 4) 0) (right ^^^ salt.getD ((place + 1) % 4) 0)
    replacePairs salt n (place + 2) left right ((t.setIfInBounds place left).setIfInBounds (place + 1) right)

def stir (salt : Table) (key : List UInt32) (t : Table) : Table :=
  replacePairs salt (tableSize / 2) 0 0 0 (mixKey t key)

def stirAll (password salt : List UInt32) : Nat → Table → Table
  | 0, t => t
  | n + 1, t => stirAll password salt n (stir #[] salt (stir #[] password t))

def lastText : List UInt8 := "OrpheanBeholderScryDoubt".toUTF8.toList

def encipherTimes (t : Table) : Nat → UInt32 × UInt32 → UInt32 × UInt32
  | 0, pair => pair
  | n + 1, (left, right) => encipherTimes t n (encipher t left right)

def encipherWords (t : Table) : List UInt32 → List UInt32
  | left :: right :: rest =>
    let (left, right) := encipherTimes t 64 (left, right)
    left :: right :: encipherWords t rest
  | _ => []

def bytesOf (w : UInt32) : List UInt8 := [(w >>> 24).toUInt8, (w >>> 16).toUInt8, (w >>> 8).toUInt8, w.toUInt8]

/-- The digest of a password with a salt after `2 ^ cost` rounds. A password ends with a zero byte,
and at most 72 bytes of it count. -/
def digest (cost : Nat) (salt password : List UInt8) : List UInt8 :=
  let key := cycledWords (password.take 72 ++ [0]) keySize
  let start := stir (cycledWords salt 4).toArray key startTable
  let t := stirAll key (cycledWords salt keySize) (Nat.pow 2 cost) start
  ((encipherWords t (wordsOf lastText)).flatMap bytesOf).take 23

def alphabet : List Char := "./ABCDEFGHIJKLMNOPQRSTUVWXYZabcdefghijklmnopqrstuvwxyz0123456789".toList

def written (bytes : List UInt8) : List Char :=
  let count := (8 * bytes.length + 5) / 6
  let number := bytes.foldl (fun n b => n * 256 + b.toNat) 0 <<< (6 * count - 8 * bytes.length)
  (List.range count).map fun i => alphabet.getD (number >>> (6 * (count - 1 - i)) % 64) '.'

def readBytes? (count : Nat) (text : List Char) : Option (List UInt8) := do
  let sixes ← text.mapM fun c => alphabet.findIdx? (· = c)
  let number := sixes.foldl (fun n six => n * 64 + six) 0 >>> (6 * text.length - 8 * count)
  return (List.range count).map fun i => UInt8.ofNat (number >>> (8 * (count - 1 - i)))

def versions : List Char := ['a', 'b', 'y']

def matchesDigest (password : List UInt8) (hashed : List Char) : Bool :=
  match hashed with
  | '$' :: '2' :: version :: '$' :: tens :: ones :: '$' :: rest =>
    let cost := (tens.toNat - 48) * 10 + (ones.toNat - 48)
    if versions.contains version && tens.isDigit && ones.isDigit && 4 ≤ cost && cost ≤ 31 && rest.length = 53
        && !password.contains 0 then
      match readBytes? 16 (rest.take 22) with
      | some salt => rest = written salt ++ written (digest cost salt password)
      | none => false
    else false
  | _ => false

end CodeAudit.Digest.Password

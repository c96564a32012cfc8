import CodeAudit.Json

/-! Bytes written with 64 characters. Reading passes over characters that do not belong to the
alphabet. -/

namespace CodeAudit.Pack

abbrev Octets := List UInt8

namespace Base64

def alphabet : Chars := "ABCDEFGHIJKLMNOPQRSTUVWXYZabcdefghijklmnopqrstuvwxyz0123456789+/".toList

def digit (n : Nat) : Char := alphabet.getD (n % 64) 'A'

def value? (c : Char) : Option Nat := alphabet.findIdx? (· == c)

def encode : Octets → Chars
  | [] => []
  | [a] => [digit (a.toNat / 4), digit (a.toNat * 16), '=', '=']
  | [a, b] => [digit (a.toNat / 4), digit (a.toNat * 16 + b.toNat / 16), digit (b.toNat * 4), '=']
  | a :: b :: c :: rest =>
    digit (a.toNat / 4) :: digit (a.toNat * 16 + b.toNat / 16) :: digit (b.toNat * 4 + c.toNat / 64) ::
      digit c.toNat :: encode rest

structure Reader where
  bytes : Octets := []
  place : Nat := 0
  left : Nat := 0
  pads : Nat := 0

def Reader.take (r : Reader) (n : Nat) : Reader :=
  match r.place with
  | 0 => { r with place := 1, left := n, pads := 0 }
  | 1 => { bytes := UInt8.ofNat (r.left * 4 + n / 16) :: r.bytes, place := 2, left := n % 16, pads := 0 }
  | 2 => { bytes := UInt8.ofNat (r.left * 16 + n / 4) :: r.bytes, place := 3, left := n % 4, pads := 0 }
  | _ => { bytes := UInt8.ofNat (r.left * 64 + n) :: r.bytes, place := 0, left := 0, pads := 0 }

def Reader.finish (r : Reader) : Except String Octets :=
  match r.place with
  | 0 => .ok r.bytes.reverse
  | 1 => .error ("Invalid base64-encoded string: number of data characters (" ++
      natText (r.bytes.length / 3 * 4 + 1) ++ ") cannot be 1 more than a multiple of 4")
  | _ => .error "Incorrect padding"

def read (r : Reader) : Chars → Except String Octets
  | [] => r.finish
  | c :: rest =>
    if c = '=' then
      if 2 ≤ r.place then
        let pads := r.pads + 1
        if 4 ≤ r.place + pads then .ok r.bytes.reverse else read { r with pads } rest
      else read r rest
    else
      match value? c with
      | some n => read (r.take n) rest
      | none => read r rest

def decode (s : Chars) : Except String Octets := read {} s

end Base64

/-! Streams of compressed blocks: stored bytes, or codes for bytes and for repetitions of earlier
bytes, in bits from the lowest of each byte on. Written are stored blocks. -/

inductive StreamError where
  | truncated
  | wrong (words : String)

namespace Inflate

abbrev Bits := List Bool

abbrev Stream := StateT Bits (Except StreamError)

def bitsOf (bytes : Octets) : Bits := bytes.flatMap fun b => (List.range 8).map fun i => b.toNat.testBit i

def wrong {α : Type} (words : String) : Stream α := throw (.wrong words)

def bit : Stream Nat := do
  let b :: rest ← get | throw .truncated
  set rest
  return b.toNat

def number : Nat → Stream Nat
  | 0 => return 0
  | n + 1 => do return (← bit) + 2 * (← number n)

def numbers (count width : Nat) : Stream (List Nat) := (List.range count).mapM fun _ => number width

def align : Stream Unit := modify fun bits => bits.drop (bits.length % 8)

structure Code where
  counts : List Nat
  symbols : Array Nat

namespace Code

/-- The code in which every symbol has the given length; symbols without a code have length zero.
Only lengths up to the greatest one are looked at, and at least one bit. -/
def ofLengths (lengths : List Nat) : Code where
  counts := (List.range (max 1 (min 15 (lengths.foldl max 0)))).map fun i => lengths.count (i + 1)
  symbols := ((List.range 15).flatMap fun i => (lengths.zipIdx.filter fun e => e.1 = i + 1).map (·.2)).toArray

variable (c : Code)

def room : Int := c.counts.foldl (fun left (n : Nat) => left * 2 - Int.ofNat n) 1

def isTiny : Bool := (c.counts.drop 1).all (· = 0) && c.counts.headD 0 ≤ 1

/-- Reads a symbol bit by bit: `first` is the first code of the present length, `index` the place of
its symbol. -/
def symbolFrom (words : String) (code first index : Nat) : List Nat → Stream Nat
  | [] => wrong words
  | count :: rest => do
    let code := code + (← bit)
    if code < first + count then return c.symbols.getD (index + (code - first)) 0
    symbolFrom words (2 * code) (2 * (first + count)) (index + count) rest

def symbol (words : String) : Stream Nat := c.symbolFrom words 0 0 0 c.counts

def isUsable : Bool := 0 ≤ c.room && (c.room = 0 || c.isTiny)

end Code

/-- Ranges that follow on each other, each as long as its extra bits allow. -/
def ranges : Nat → List Nat → List (Nat × Nat)
  | _, [] => []
  | start, extra :: rest => (start, extra) :: ranges (start + Nat.pow 2 extra) rest

def lengthTable : List (Nat × Nat) := ranges 3 ((List.range 28).map fun i => (i - 4) / 4) ++ [(258, 0)]

def distanceTable : List (Nat × Nat) := ranges 1 ((List.range 30).map fun i => (i - 2) / 2)

def repeatBack (distance : Nat) : Nat → Array UInt8 → Array UInt8
  | 0, out => out
  | n + 1, out => repeatBack distance n (out.push (out.getD (out.size - distance) 0))

def codes (literals distances : Code) (out : Array UInt8) : Nat → Stream (Array UInt8)
  | 0 => throw .truncated
  | fuel + 1 => do
    let sym ← literals.symbol "invalid literal/length code"
    if sym < 256 then codes literals distances (out.push (UInt8.ofNat sym)) fuel
    else if sym = 256 then return out
    else
      let some (least, extra) := lengthTable[sym - 257]? | wrong "invalid literal/length code"
      let more ← number extra
      let some (nearest, extra) := distanceTable[← distances.symbol "invalid distance code"]?
        | wrong "invalid distance code"
      let distance := nearest + (← number extra)
      if out.size < distance then wrong "invalid distance too far back"
      codes literals distances (repeatBack distance (least + more) out) fuel

def fixedLengths : List Nat :=
  List.replicate 144 8 ++ List.replicate 112 9 ++ List.replicate 24 7 ++ List.replicate 8 8

def stored (out : Array UInt8) : Stream (Array UInt8) := do
  align
  let length ← number 16
  if length + (← number 16) ≠ 65535 then wrong "invalid stored block lengths"
  return (← numbers length 8).foldl (fun out b => out.push (UInt8.ofNat b)) out

def lengthOrder : List Nat := [16, 17, 18, 0, 8, 7, 9, 6, 10, 5, 11, 4, 12, 3, 13, 2, 14, 1, 15]

def codeLengths (code : Code) (total : Nat) (done : List Nat) : Nat → Stream (List Nat)
  | 0 => throw .truncated
  | fuel + 1 => do
    if total ≤ done.length then return done.reverse
    let again := fun (length n : Nat) => do
      if total < done.length + n then wrong "invalid bit length repeat"
      codeLengths code total (List.replicate n length ++ done) fuel
    let sym ← if code.symbols.isEmpty then (0 * ·) <$> bit else code.symbol "invalid code lengths set"
    if sym < 16 then codeLengths code total (sym :: done) fuel
    else if sym = 16 then
      let n ← number 2
      let last :: _ := done | wrong "invalid bit length repeat"
      again last (n + 3)
    else if sym = 17 then again 0 ((← number 3) + 3)
    else again 0 ((← number 7) + 11)

def dynamic (out : Array UInt8) (fuel : Nat) : Stream (Array UInt8) := do
  let literals := (← number 5) + 257
  let distances := (← number 5) + 1
  let count := (← number 4) + 4
  if 286 < literals || 30 < distances then wrong "too many length or distance symbols"
  let given := lengthOrder.zip (← numbers count 3)
  let code := Code.ofLengths ((List.range 19).map fun s => (given.lookup s).getD 0)
  if code.room ≠ 0 && !code.symbols.isEmpty then wrong "invalid code lengths set"
  let lengths ← codeLengths code (literals + distances) [] fuel
  if lengths.getD 256 0 = 0 then wrong "invalid code -- missing end-of-block"
  let literalCode := Code.ofLengths (lengths.take literals)
  let distanceCode := Code.ofLengths (lengths.drop literals)
  if !literalCode.isUsable then wrong "invalid literal/lengths set"
  if !distanceCode.isUsable then wrong "invalid distances set"
  codes literalCode distanceCode out fuel

def blocks (out : Array UInt8) : Nat → Stream (Array UInt8)
  | 0 => throw .truncated
  | fuel + 1 => do
    let last ← bit
    let out ← match ← number 2 with
      | 0 => stored out
      | 1 => codes (.ofLengths fixedLengths) (.ofLengths (List.replicate 32 5)) out (fuel + 1)
      | 2 => dynamic out (fuel + 1)
      | _ => wrong "invalid block type"
    if last = 1 then return out else blocks out fuel

end Inflate

namespace Zlib

variable (bytes : Octets)

def checksum : Nat :=
  let (a, b) := bytes.foldl (fun (a, b) x =>
    let a := (a + x.toNat) % 65521
    (a, (b + a) % 65521)) (1, 0)
  b * 65536 + a

def lowFirst : Nat → Nat → Octets
  | 0, _ => []
  | width + 1, n => UInt8.ofNat (n % 256) :: lowFirst width (n / 256)

def highFirst (n : Nat) : Octets := (lowFirst 4 n).reverse

def storedBlocks : Nat → Octets → Octets
  | 0, _ => []
  | fuel + 1, bytes =>
    let (block, rest) := (bytes.take 65535, bytes.drop 65535)
    let mark : UInt8 := if rest.isEmpty then 1 else 0
    mark :: lowFirst 2 block.length ++ lowFirst 2 (65535 - block.length) ++ block ++
      if rest.isEmpty then [] else storedBlocks fuel rest

def pack : Octets := [0x78, 0x01] ++ storedBlocks (bytes.length + 1) bytes ++ highFirst (checksum bytes)

def faultOf : StreamError → Fault
  | .truncated => .badStream "Error -5 while decompressing data: incomplete or truncated stream"
  | .wrong words => .badStream ("Error -3 while decompressing data: " ++ words)

def body : Inflate.Stream Octets := do
  let out := (← Inflate.blocks #[] ((← get).length + 400)).toList
  Inflate.align
  let sum := (← Inflate.numbers 4 8).foldl (fun n b => n * 256 + b) 0
  if sum ≠ checksum out then Inflate.wrong "incorrect data check"
  return out

def unpack : Outcome Octets :=
  match bytes with
  | method :: flags :: rest =>
    let wrong := fun (words : String) => .error (faultOf (.wrong words))
    if (method.toNat * 256 + flags.toNat) % 31 ≠ 0 then wrong "incorrect header check"
    else if method.toNat % 16 ≠ 8 then wrong "unknown compression method"
    else if 7 < method.toNat / 16 then wrong "invalid window size"
    else if flags.toNat.testBit 5 then
      if rest.length < 4 then .error (faultOf .truncated)
      else .error (.badStream "Error 2 while decompressing data")
    else (body.run' (Inflate.bitsOf rest)).mapError faultOf
  | _ => .error (faultOf .truncated)

end Zlib

end CodeAudit.Pack

/-! Frames of blocks of bytes. Written are blocks of plain bytes; read are also literal runs and
repetitions, with or without checksums. A parcel is a value packed by one of several methods. -/

namespace CodeAudit.Pack.Hash

def prime1 : UInt32 := 0x9E3779B1

def prime2 : UInt32 := 0x85EBCA77

def prime3 : UInt32 := 0xC2B2AE3D

def prime4 : UInt32 := 0x27D4EB2F

def prime5 : UInt32 := 0x165667B1

def turnLeft (x n : UInt32) : UInt32 := (x <<< n) ||| (x >>> (32 - n))

def word (a b c d : UInt8) : UInt32 :=
  a.toUInt32 ||| (b.toUInt32 <<< 8) ||| (c.toUInt32 <<< 16) ||| (d.toUInt32 <<< 24)

def stir (lane w : UInt32) : UInt32 := turnLeft (lane + w * prime2) 13 * prime1

structure Lanes where
  first : UInt32 := prime1 + prime2
  second : UInt32 := prime2
  third : UInt32 := 0
  fourth : UInt32 := 0 - prime1

def Lanes.joined (l : Lanes) : UInt32 :=
  turnLeft l.first 1 + turnLeft l.second 7 + turnLeft l.third 12 + turnLeft l.fourth 18

def Lanes.take (l : Lanes) : Octets → Lanes × Octets
  | a0 :: a1 :: a2 :: a3 :: b0 :: b1 :: b2 :: b3 :: c0 :: c1 :: c2 :: c3 :: d0 :: d1 :: d2 :: d3 :: rest =>
    Lanes.take {
      first := stir l.first (word a0 a1 a2 a3), second := stir l.second (word b0 b1 b2 b3)
      third := stir l.third (word c0 c1 c2 c3), fourth := stir l.fourth (word d0 d1 d2 d3) } rest
  | rest => (l, rest)

def tail (h : UInt32) : Octets → UInt32
  | a :: b :: c :: d :: rest => tail (turnLeft (h + word a b c d * prime3) 17 * prime4) rest
  | a :: rest => tail (turnLeft (h + a.toUInt32 * prime5) 11 * prime1) rest
  | [] => h

def spread (h : UInt32) : UInt32 :=
  let h := (h ^^^ (h >>> 15)) * prime2
  let h := (h ^^^ (h >>> 13)) * prime3
  h ^^^ (h >>> 16)

def ofOctets (bytes : Octets) : UInt32 :=
  let (lanes, rest) := Lanes.take {} bytes
  let start := if bytes.length < 16 then prime5 else lanes.joined
  spread (tail (start + UInt32.ofNat bytes.length) rest)

end CodeAudit.Pack.Hash

namespace CodeAudit.Pack.Lz4

open Zlib (lowFirst)

def magic : Octets := [0x04, 0x22, 0x4D, 0x18]

def descriptor : Octets := [0x60, 0x70, 0x73]

def plainMark : Nat := 0x80000000

def blockSize : Nat := 4 * 1024 * 1024

def plainBlocks : Nat → Octets → Octets
  | 0, _ => lowFirst 4 0
  | fuel + 1, bytes =>
    if bytes.isEmpty then lowFirst 4 0
    else
      let block := bytes.take blockSize
      lowFirst 4 (plainMark + block.length) ++ block ++ plainBlocks fuel (bytes.drop blockSize)

variable (bytes : Octets)

def pack : Octets := magic ++ descriptor ++ plainBlocks (bytes.length + 1) bytes

inductive FrameError where
  | code (name : String)
  | cutShort (missing : Nat)
  | tooLarge

def headFault : FrameError → Fault
  | .code name => .runtime ("LZ4F_getFrameInfo failed with code: ERROR_" ++ name)
  | _ => .noRoom

def bodyFault : FrameError → Fault
  | .code name => .runtime ("LZ4F_decompress failed with code: ERROR_" ++ name)
  | .cutShort missing => .runtime ("Frame incomplete. LZ4F_decompress returned: " ++ natText missing)
  | .tooLarge => .noRoom

def number : Nat := bytes.foldr (fun b n => b.toNat + 256 * n) 0

structure Head where
  isLinked : Bool
  hasBlockSums : Bool
  hasContentSum : Bool
  limit : Nat
  size : Nat

def readHead : Except FrameError (Head × Octets) :=
  let flags := (bytes.getD 4 0).toNat
  let hasSize := flags.testBit 3
  let length := 7 + (if hasSize then 8 else 0) + (if flags.testBit 0 then 4 else 0)
  let sizes := (bytes.getD 5 0).toNat
  if bytes.length < length then .error (.code "frameHeader_incomplete")
  else if flags.testBit 1 then .error (.code "reservedFlag_set")
  else if flags / 64 ≠ 1 then .error (.code "headerVersion_wrong")
  else if sizes.testBit 7 then .error (.code "reservedFlag_set")
  else if sizes / 16 % 8 < 4 then .error (.code "maxBlockSize_invalid")
  else if sizes % 16 ≠ 0 then .error (.code "reservedFlag_set")
  else if (Hash.ofOctets ((bytes.take (length - 1)).drop 4)).toNat / 256 % 256 ≠
      (bytes.getD (length - 1) 0).toNat then .error (.code "headerChecksum_invalid")
  else .ok ({
      isLinked := !flags.testBit 5, hasBlockSums := flags.testBit 4, hasContentSum := flags.testBit 2
      limit := Nat.pow 4 (sizes / 16 % 8 - 4) * 65536
      size := if hasSize then number ((bytes.drop 6).take 8) else 0 }, bytes.drop length)

def longLength (stay : Nat) : Nat → Octets → Option (Nat × Octets)
  | _, [] => none
  | n, b :: rest =>
    if rest.length < stay then none
    else if b = 255 then longLength stay (n + 255) rest else some (n + b.toNat, rest)

def lengthFrom (stay start : Nat) (bytes : Octets) : Option (Nat × Octets) :=
  if start = 15 then longLength stay 15 bytes else some (start, bytes)

def copyBack (distance count : Nat) (out : Array UInt8) : Array UInt8 :=
  if distance = 0 then out ++ Array.replicate count 0 else Inflate.repeatBack distance count out

def isLastRun (limit start made count : Nat) (given : Nat) (rest : Octets) : Bool :=
  if start < 15 && 17 ≤ given && made + 32 ≤ limit then false
  else limit < made + count + 12 || rest.length < count + 8

def runs (base limit : Nat) : Nat → Octets → Array UInt8 → Option (Array UInt8)
  | 0, _, _ => none
  | _ + 1, [], _ => none
  | fuel + 1, token :: given, out => do
    let start := token.toNat / 16
    let (count, rest) ← if start = 15 && given.length ≤ 15 then none else lengthFrom 15 start given
    let made := out.size - base
    if isLastRun limit start made count given.length rest then
      if rest.length = count && made + count ≤ limit then some (rest.foldl Array.push out) else none
    else
      let out := (rest.take count).foldl Array.push out
      match rest.drop count with
      | low :: high :: rest =>
        let distance := low.toNat + 256 * high.toNat
        let (more, rest) ← lengthFrom 4 (token.toNat % 16) rest
        if out.size < distance || limit < out.size - base + more + 9 then none
        else runs base limit fuel rest (copyBack distance (more + 4) out)
      | _ => none

def readRuns (h : Head) (block : Octets) (out : Array UInt8) : Except FrameError (Array UInt8) :=
  let unpacked := if h.isLinked then runs out.size h.limit (block.length + 1) block out
    else (runs 0 h.limit (block.length + 1) block #[]).map (out ++ ·)
  unpacked.elim (.error (.code "decompressionFailed")) .ok

def agrees (bytes sum : Octets) : Bool := (Hash.ofOctets bytes).toNat = number (sum.take 4)

def finish (h : Head) (bytes : Octets) (out : Array UInt8) : Except FrameError Octets :=
  if h.size ≠ 0 && h.size ≠ out.size then .error (.code "frameSize_wrong")
  else if !h.hasContentSum then .ok out.toList
  else if bytes.length < 4 then .error (.cutShort (4 - bytes.length))
  else if agrees out.toList bytes then .ok out.toList
  else .error (.code "contentChecksum_invalid")

/-- Reads blocks up to the end mark. A frame that stops early says how many bytes it would take
next. -/
def blocks (h : Head) : Nat → Octets → Array UInt8 → Except FrameError Octets
  | 0, _, _ => .error (.cutShort 4)
  | fuel + 1, bytes, out =>
    let word := number (bytes.take 4)
    let rest := bytes.drop 4
    let size := word % plainMark
    let sum := if h.hasBlockSums then 4 else 0
    let block := rest.take size
    let after := rest.drop size
    let checked (made : Except FrameError (Array UInt8)) := do
      if h.hasBlockSums && !agrees block after then .error (.code "blockChecksum_invalid")
      blocks h fuel (after.drop sum) (← made)
    if bytes.length < 4 then .error (.cutShort (4 - bytes.length))
    else if word = 0 then finish h rest out
    else if h.limit < size then .error (.code "maxBlockSize_invalid")
    else if plainMark ≤ word then
      if rest.length < size then .error (.cutShort (size - rest.length + sum + 4))
      else if after.length < sum then .error (.cutShort 1)
      else checked (.ok (block.foldl Array.push out))
    else if rest.isEmpty then .error (.cutShort (4 + size + sum))
    else if rest.length < size + sum then .error (.cutShort (size + sum - rest.length + sum + 4))
    else checked (readRuns h block out)

def roomFor : Nat := Nat.pow 2 36

def readBody (h : Head) (bytes : Octets) : Except FrameError Octets :=
  if roomFor < h.size then .error .tooLarge else blocks h (bytes.length + 1) bytes #[]

def skip : Outcome Octets :=
  if bytes.length < 8 then .error (headFault (.code "frameHeader_incomplete"))
  else
    let size := number ((bytes.drop 4).take 4)
    if bytes.length < 8 + size then .error (bodyFault (.cutShort (8 + size - bytes.length))) else .ok []

def unpack : Outcome Octets :=
  let mark := number (bytes.take 4)
  if bytes.length < 5 then .error (headFault (.code "frameHeader_incomplete"))
  else if mark / 16 = 0x184D2A5 then skip bytes
  else if bytes.take 4 ≠ magic then .error (headFault (.code "frameType_unknown"))
  else do
    let (h, rest) ← (readHead bytes).mapError headFault
    (readBody h rest).mapError bodyFault

end CodeAudit.Pack.Lz4

namespace CodeAudit.Pack

/-- A way to pack bytes. Those below write and read the two formats; what packs and unpacks values
takes any. -/
structure Method where
  name : String
  pack : Octets → Octets
  unpack : Octets → Outcome Octets

def zlib : Method := ⟨"zlib", Zlib.pack, Zlib.unpack⟩

def lz4 : Method := ⟨"lz4", Lz4.pack, Lz4.unpack⟩

def methods : List Method := [zlib, lz4]

def methodOf (name : Value) (methods : List Method := methods) : Outcome Method := do
  let key ← name.keyText
  let some m := methods.find? fun m => m.name = key && name.kind = "str"
    | .error (.badValue ("Algorithme inconnu: " ++ name.display))
  return m

structure Parcel where
  data : String
  method : String
  originalSize : Nat

def Parcel.toValue (p : Parcel) : Value := .object [("algorithm", p.method), ("data", p.data)]

def Method.parcel (m : Method) (bytes : Octets) : Parcel where
  data := String.ofList (Base64.encode (m.pack bytes))
  method := m.name
  originalSize := bytes.length

def octets (v : Value) : Octets := (Json.write {} v).toUTF8.data.toList

def textOf (bytes : Octets) : Outcome String :=
  match String.fromUTF8? ⟨bytes.toArray⟩ with
  | some s => .ok s
  | none => .error .badEncoding

def compress (usual : Method) (v method : Value) (methods : List Method := methods) : Outcome Parcel := do
  let m ← if method.truthy then methodOf method methods else .ok usual
  return m.parcel (octets v)

def decodeText (v : Value) : Outcome Octets :=
  match v with
  | .text s =>
    if s.toList.all fun c => c.toNat < 128 then
      (Base64.decode s.toList).mapError .badPadding
    else .error (.badValue "string argument should contain only ASCII characters")
  | v => .error (.wrongType ("argument should be a bytes-like object or ASCII string, not '" ++ v.kind ++ "'"))

def decompress (parcel : Value) (methods : List Method := methods) : Outcome Value := do
  let m ← methodOf (← parcel.member "algorithm") methods
  let bytes ← m.unpack (← decodeText (← parcel.member "data"))
  Json.parse (← textOf bytes)

end CodeAudit.Pack

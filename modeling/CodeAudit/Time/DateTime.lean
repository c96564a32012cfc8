import CodeAudit.Json

/-! The calendar, with days counted from 1970-01-01, and points in time at some place, which may be
unknown. -/

namespace CodeAudit.Time

structure Date where
  year : Int
  month : Nat
  day : Nat

variable (year : Int)

def isLeap : Bool := year % 4 = 0 && (year % 100 ≠ 0 || year % 400 = 0)

def daysInMonth (month : Nat) : Nat :=
  match month with
  | 2 => if isLeap year then 29 else 28
  | 4 | 6 | 9 | 11 => 30
  | _ => 31

/-- The number of days from 1970-01-01 to a date. Years are counted from March, so that the odd day
of a leap year is the last of its year. -/
def Date.toDays (d : Date) : Int :=
  let year := if d.month ≤ 2 then d.year - 1 else d.year
  let month : Int := if d.month ≤ 2 then d.month + 9 else d.month - 3
  let era := year / 400
  let yearOfEra := year - era * 400
  let dayOfYear := (153 * month + 2) / 5 + d.day - 1
  era * 146097 + yearOfEra * 365 + yearOfEra / 4 - yearOfEra / 100 + dayOfYear - 719468

def Date.ofDays (days : Int) : Date :=
  let shifted := days + 719468
  let era := shifted / 146097
  let dayOfEra := shifted - era * 146097
  let yearOfEra := (dayOfEra - dayOfEra / 1460 + dayOfEra / 36524 - dayOfEra / 146096) / 365
  let dayOfYear := dayOfEra - (365 * yearOfEra + yearOfEra / 4 - yearOfEra / 100)
  let month := (5 * dayOfYear + 2) / 153
  let day := dayOfYear - (153 * month + 2) / 5 + 1
  let month := if month < 10 then month + 3 else month - 9
  let year := yearOfEra + era * 400
  { year := if month ≤ 2 then year + 1 else year, month := month.toNat, day := day.toNat }

def weekday (days : Int) : Nat := ((days + 3) % 7).toNat

def firstWeekStart : Int :=
  let fourth := Date.toDays ⟨year, 1, 4⟩
  fourth - weekday fourth

def weeksInYear : Nat := ((firstWeekStart (year + 1) - firstWeekStart year) / 7).toNat

structure DateTime where
  day : Int
  micros : Nat
  offset : Option Int := none
deriving DecidableEq

def dayMicros : Nat := 86400000000

namespace DateTime

variable (t : DateTime)

def localMicros : Int := t.day * dayMicros + t.micros

def toMicros : Int := t.localMicros - t.offset.getD 0

def ofMicros (n : Int) (offset : Option Int) : DateTime :=
  let shifted := n + offset.getD 0
  { day := shifted / dayMicros, micros := (shifted % dayMicros).toNat, offset := offset }

def addMicros (n : Int) : DateTime :=
  let moved := t.localMicros + n
  { t with day := moved / dayMicros, micros := (moved % dayMicros).toNat }

def secondOfDay : Nat := t.micros / 1000000

end DateTime

def padded (width n : Nat) : String := Text.padLeft '0' width (natText n)

def Date.text (d : Date) : String := padded 4 d.year.toNat ++ "-" ++ padded 2 d.month ++ "-" ++ padded 2 d.day

def clockText (seconds : Nat) : String :=
  padded 2 (seconds / 3600) ++ ":" ++ padded 2 (seconds / 60 % 60) ++ ":" ++ padded 2 (seconds % 60)

def offsetText (offset : Int) : String :=
  let sign := if offset < 0 then "-" else "+"
  let n := offset.natAbs
  let seconds := n / 1000000
  let micros := n % 1000000
  let hm := padded 2 (seconds / 3600) ++ ":" ++ padded 2 (seconds / 60 % 60)
  let s := if seconds % 60 = 0 && micros = 0 then "" else ":" ++ padded 2 (seconds % 60)
  sign ++ hm ++ s ++ (if micros = 0 then "" else "." ++ padded 6 micros)

def DateTime.text (t : DateTime) : String :=
  let micros := t.micros % 1000000
  (Date.ofDays t.day).text ++ "T" ++ clockText t.secondOfDay ++
    (if micros = 0 then "" else "." ++ padded 6 micros) ++ (t.offset.map offsetText).getD ""

def secondsOfMicros (n : Int) : Float := Float.ofInt (n / 1000000) + Float.ofInt (n % 1000000) / 1000000.0

def microsOfSeconds (x : Float) : Int :=
  match Dyadic.ofFloat? x with
  | none => 0
  | some d =>
    let whole := d.truncate
    let fraction := (x - (floatOfInt? whole).getD 0.0) * 1000000.0
    match Dyadic.ofFloat? fraction with
    | none => whole * 1000000
    | some f =>
      let (num, den) := f.ratio
      let n := Int.ofNat (roundDiv num den)
      whole * 1000000 + (if fraction < 0.0 then -n else n)

/-! Lengths of time in microseconds, of less than a thousand million days, and the range of the
calendar. -/

def checkSpan (micros : Int) : Outcome Int :=
  let days := micros / dayMicros
  if 999999999 < days ∨ days < -999999999 then
    .error (.overflow ("days=" ++ intText days ++ "; must have magnitude <= 999999999"))
  else .ok micros

def spanOf (v : Value) : Outcome Int :=
  match v.number? with
  | some (.int n) => checkSpan (n * 1000000)
  | some (.float x) => do
    let _ ← intOfFloat x
    checkSpan (microsOfSeconds x)
  | none => .error (.wrongType ("unsupported type for timedelta seconds component: " ++ v.kind))

def firstMoment : Int := -62135596800000000

def lastMoment : Int := 253402300799999999

def isOnCalendar (t : Int) : Bool := firstMoment ≤ t && t ≤ lastMoment

def later (t span : Int) : Outcome Int :=
  if isOnCalendar (t + span) then .ok (t + span) else .error (.overflow "date value out of range")

/-!
Numbers that count seconds. A running clock counts in floating seconds; exact rational seconds obey
the laws of arithmetic.
-/

class Seconds (T : Type) extends Add T, Sub T, LT T, LE T where
  ofNum : Num → T
  whole : T → Int
  /-- The whole seconds; a length without end has none. -/
  wholeSeconds : T → Outcome Int
  micros : T → Int
  decidableLT : DecidableLT T
  decidableLE : DecidableLE T

namespace Seconds

variable {T : Type} [Seconds T]

instance (a b : T) : Decidable (a < b) := Seconds.decidableLT a b

instance (a b : T) : Decidable (a ≤ b) := Seconds.decidableLE a b

def min (a b : T) : T := if b < a then b else a

def min? : List T → Option T
  | [] => none
  | t :: rest => some (rest.foldl min t)

def toDateTime (t : T) : DateTime := .ofMicros (micros t) none

end Seconds

instance : Seconds Float where
  ofNum
    | .int n => (floatOfInt? n).getD (if n < 0 then -1.0 / 0.0 else 1.0 / 0.0)
    | .float x => x
  whole x := (Dyadic.ofFloat? x).elim 0 Dyadic.truncate
  wholeSeconds := intOfFloat
  micros := microsOfSeconds
  decidableLT := inferInstance
  decidableLE := inferInstance

def exactOfFloat (x : Float) : Rat :=
  match Dyadic.ofFloat? x with
  | none => 0
  | some d =>
    let (num, den) := d.ratio
    mkRat (if x < 0 then -num else num) den

instance : Seconds Rat where
  ofNum
    | .int n => n
    | .float x => exactOfFloat x
  whole x := x.num.tdiv x.den
  wholeSeconds x := .ok (x.num.tdiv x.den)
  micros x :=
    let n := Int.ofNat (roundDiv (x.num.natAbs * 1000000) x.den)
    if x < 0 then -n else n
  decidableLT := inferInstance
  decidableLE := inferInstance

/-! Reads points in time. Dates are `YYYY-MM-DD`, `YYYYMMDD` or a week and a day of a year; any one
character may stand before the time. -/

def digits? : Nat → Chars → Option (Nat × Chars)
  | count, s =>
    let ds := s.take count
    if ds.length = count && ds.all Char.isDigit then some (Json.digitsValue ds, s.drop count) else none

variable (s : Chars)

def dateLength : Option Nat :=
  let at? := fun (i : Nat) => s[i]?
  let isDigitAt := fun (i : Nat) => ((at? i).map Char.isDigit).getD false
  if s.length < 7 then none
  else if s.length = 7 then some 7
  else if at? 4 = some '-' then
    if at? 5 = some 'W' then
      if at? 8 = some '-' then
        if s.length = 9 then none
        else if isDigitAt 10 then some 8
        else some 10
      else some 8
    else some 10
  else if at? 4 = some 'W' then
    let run := (s.drop 7).takeWhile Char.isDigit
    let stop := 7 + run.length
    if stop < 9 then some stop else if stop % 2 = 0 then some 7 else some 8
  else some 8

def daysOfWeek? (year week day : Nat) : Option Int :=
  if week = 0 || weeksInYear year < week || day = 0 || 7 < day then none
  else some (firstWeekStart year + (week - 1) * 7 + (day - 1))

inductive RawDate where
  | ofParts (year month day : Nat)
  | ofDays (days : Int)

def readWeek? (year : Nat) (dashed : Bool) (s : Chars) : Option RawDate := do
  let (week, rest) ← digits? 2 s
  match rest with
  | [] => return .ofDays (← daysOfWeek? year week 1)
  | c :: more =>
    let (day, after) ← if dashed then (if c = '-' then digits? 1 more else none) else digits? 1 rest
    if after.isEmpty then return .ofDays (← daysOfWeek? year week day) else none

def readDate? : Option RawDate := do
  let (year, rest) ← digits? 4 s
  let (dashed, rest) := match rest with
    | '-' :: more => (true, more)
    | _ => (false, rest)
  match rest with
  | 'W' :: more => readWeek? year dashed more
  | _ =>
    let (month, rest) ← digits? 2 rest
    let rest ← match dashed, rest with
      | true, '-' :: more => some more
      | true, _ => none
      | false, _ => some rest
    let (day, after) ← digits? 2 rest
    if after.isEmpty then return .ofParts year month day else none

structure RawClock where
  hour : Nat := 0
  minute : Nat := 0
  second : Nat := 0
  micros : Nat := 0

variable (c : RawClock)

def RawClock.set (place n : Nat) : RawClock :=
  match place with
  | 0 => { c with hour := n }
  | 1 => { c with minute := n }
  | _ => { c with second := n }

def readFraction? (s : Chars) : Option (RawClock × Bool) := do
  let count := min 6 s.length
  let (n, rest) ← digits? count s
  let left := rest.dropWhile Char.isDigit
  return ({ c with micros := n * Nat.pow 10 (6 - count) }, !left.isEmpty)

def readClock? : Nat → Nat → Bool → RawClock → Chars → Option (RawClock × Bool)
  | 0, _, _, c, s => readFraction? c s
  | fuel + 1, place, colons, c, s => do
    let (n, rest) ← digits? 2 s
    let c := c.set place n
    match rest with
    | [] => return (c, false)
    | d :: more =>
      let colons := if place = 0 then d == ':' else colons
      if more.isEmpty then return (c, true)
      else if colons && d = ':' then
        readClock? fuel (place + 1) colons c more
      else if d = '.' || d = ',' then readFraction? c more
      else if !colons then readClock? fuel (place + 1) colons c rest
      else none

def clock? : Option (RawClock × Bool) := readClock? 3 0 true {} s

def startsOffset (c : Char) : Bool := c == '+' || c == '-' || c == 'Z'

def RawClock.distance (sign : Char) : Int :=
  let seconds := c.hour * 3600 + c.minute * 60 + c.second
  let n : Int := if seconds = 0 then 0 else (seconds * 1000000 + c.micros : Nat)
  if sign = '-' then -n else n

def readTime? : Option (RawClock × Option Int) := do
  let (c, more) ← clock? (s.takeWhile (!startsOffset ·))
  match s.dropWhile (!startsOffset ·) with
  | [] => if more then none else return (c, none)
  | 'Z' :: rest => if rest.isEmpty then return (c, some 0) else none
  | sign :: rest =>
    let (o, more) ← clock? rest
    if more then none else return (c, some (o.distance sign))

def badDateTime (s : String) : Fault := .badValue ("Invalid isoformat string: " ++ quoted s)

def spanText (micros : Int) : String :=
  let second := (micros % dayMicros) / 1000000
  let part := fun (name : String) (n : Int) => if n = 0 then [] else [name ++ "=" ++ toString n]
  let parts := part "days" (micros / dayMicros) ++ part "seconds" second ++
    part "microseconds" (micros % 1000000)
  "datetime.timedelta(" ++ (if parts.isEmpty then "0" else ", ".intercalate parts) ++ ")"

def RawDate.check : RawDate → Outcome Int
  | .ofDays days =>
    if days < Date.toDays ⟨1, 1, 1⟩ then .error (.badValue "month must be in 1..12")
    else if Date.toDays ⟨9999, 12, 31⟩ < days then .error (.badValue "year 10000 is out of range")
    else .ok days
  | .ofParts year month day =>
    if year = 0 then .error (.badValue "year 0 is out of range")
    else if month = 0 || 12 < month then .error (.badValue "month must be in 1..12")
    else if day = 0 || daysInMonth year month < day then
      .error (.badValue "day is out of range for month")
    else .ok (Date.toDays ⟨year, month, day⟩)

def RawClock.check : Outcome Nat :=
  if 23 < c.hour then .error (.badValue "hour must be in 0..23")
  else if 59 < c.minute then .error (.badValue "minute must be in 0..59")
  else if 59 < c.second then .error (.badValue "second must be in 0..59")
  else .ok ((c.hour * 3600 + c.minute * 60 + c.second) * 1000000 + c.micros)

def parse (s : String) : Outcome DateTime := do
  let cs := s.toList
  let read := do
    let stop ← dateLength cs
    let date ← readDate? (cs.take stop)
    let (clock, offset) ← if stop < cs.length then readTime? (cs.drop (stop + 1))
      else some ({}, none)
    return (date, clock, offset)
  match read with
  | none => throw (badDateTime s)
  | some (date, clock, offset) =>
    if dayMicros ≤ (offset.getD 0).natAbs then
      throw (.badValue ("offset must be a timedelta strictly between -timedelta(hours=24) and " ++
        "timedelta(hours=24), not " ++ spanText (offset.getD 0) ++ "."))
    let day ← date.check
    return { day := day, micros := ← clock.check, offset := offset }

end CodeAudit.Time

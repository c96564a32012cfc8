import CodeAudit.Number.Written
import CodeAudit.Pattern.Basic
import CodeAudit.Time.DateTime

/-! Dates and times in a given format: a percent sign and a letter stand for a part of the date. -/

namespace CodeAudit.Time.Format

open Pattern (text all oneOf digit blank)

def dayNames : List String := ["monday", "tuesday", "wednesday", "thursday", "friday", "saturday", "sunday"]

def monthNames : List String := [
  "january", "february", "march", "april", "may", "june", "july", "august", "september", "october",
  "november", "december"]

def short (name : String) : String := Text.take 3 name

def names (words : List String) : Pattern := oneOf ((words.mergeSort fun a b => b.length ≤ a.length).map text)

def between (low high : Char) : Pattern := .set false [.range low high]

def dayForm : Pattern :=
  oneOf [all [.lit '3', between '0' '1'], all [between '1' '2', digit], all [.lit '0', between '1' '9'],
    between '1' '9', all [.lit ' ', between '1' '9']]

def twelveForm : Pattern := oneOf [all [.lit '1', between '0' '2'], all [.lit '0', between '1' '9'], between '1' '9']

def yearDayForm : Pattern :=
  oneOf [all [text "36", between '0' '6'], all [.lit '3', between '0' '5', digit],
    all [between '1' '2', digit, digit], all [.lit '0', between '1' '9', digit],
    all [text "00", between '1' '9'], all [between '1' '9', digit], all [.lit '0', between '1' '9'],
    between '1' '9']

def offsetForm : Pattern :=
  let colon := Pattern.optional (.lit ':')
  let sixty := all [between '0' '5', digit]
  let fraction := all [.lit '.', .times 1 (some 6) true digit]
  oneOf [
    all [.set false [.one '+', .one '-'], digit, digit, colon, sixty,
      Pattern.optional (all [colon, sixty, Pattern.optional fraction])],
    .lit 'Z']

def formOf : Char → Option Pattern
  | 'd' => some dayForm
  | 'f' => some (.times 1 (some 6) true (between '0' '9'))
  | 'H' => some (oneOf [all [.lit '2', between '0' '3'], all [between '0' '1', digit], digit])
  | 'I' | 'm' => some twelveForm
  | 'G' | 'Y' => some (all [digit, digit, digit, digit])
  | 'j' => some yearDayForm
  | 'M' => some (oneOf [all [between '0' '5', digit], digit])
  | 'S' => some (oneOf [all [.lit '6', between '0' '1'], all [between '0' '5', digit], digit])
  | 'U' | 'W' => some (oneOf [all [.lit '5', between '0' '3'], all [between '0' '4', digit], digit])
  | 'w' => some (between '0' '6')
  | 'u' => some (between '1' '7')
  | 'V' => some (oneOf [all [.lit '5', between '0' '3'], all [.lit '0', between '1' '9'],
      all [between '1' '4', digit], digit])
  | 'y' => some (all [digit, digit])
  | 'z' => some offsetForm
  | 'A' => some (names dayNames)
  | 'a' => some (names (dayNames.map short))
  | 'B' => some (names monthNames)
  | 'b' => some (names (monthNames.map short))
  | 'p' => some (names ["am", "pm"])
  | 'Z' => some (names ["gmt", "utc"])
  | _ => none

def shorthand : Char → Option String
  | 'c' => some "%a %b %d %H:%M:%S %Y"
  | 'x' => some "%m/%d/%y"
  | 'X' => some "%H:%M:%S"
  | _ => none

def expand : Chars → Chars
  | '%' :: c :: rest =>
    match shorthand c with
    | some long => long.toList ++ expand rest
    | none => '%' :: c :: expand rest
  | c :: rest => c :: expand rest
  | [] => []

def compile : Chars → Option (List Pattern × Chars)
  | '%' :: '%' :: rest => do
    let (ps, used) ← compile rest
    return (.lit '%' :: ps, used)
  | '%' :: c :: rest => do
    let form ← formOf c
    let (ps, used) ← compile rest
    return (.group c.toNat form :: ps, c :: used)
  | ['%'] => none
  | c :: rest => do
    let (ps, used) ← compile rest
    return ((if isBlank c then Pattern.some blank else .lit c) :: ps, used)
  | [] => some ([], [])

def joinBlanks : Chars → Chars
  | [] => []
  | c :: rest =>
    if isBlank c then match joinBlanks rest with
      | d :: more => if isBlank d then d :: more else ' ' :: d :: more
      | [] => [' ']
    else c :: joinBlanks rest

abbrev Parts := List (Nat × Chars)

variable (ps : Parts) (c : Char)

def Parts.text? : Option String := (ps.lookup c.toNat).map String.ofList

def Parts.number? : Option Int := (ps.text? c).bind intOfText?

def Parts.place? (words : List String) : Option Nat :=
  (ps.text? c).bind fun s => words.findIdx? (· = lowerText s)

structure Given where
  year : Option Int := none
  month : Int := 1
  day : Int := 1
  weekday : Option Int := none
  yearDay : Option Int := none
  isoYear : Option Int := none
  isoWeek : Option Int := none
  week : Option (Int × Bool) := none

variable (g : Given)

def Given.take (c : Char) : Option Given := do
  let number := ps.number? c
  let place := fun (words : List String) => (ps.place? c words).map fun n => (n : Int)
  match c with
  | 'y' => return { g with year := some (let y := ← number; if y ≤ 68 then y + 2000 else y + 1900) }
  | 'Y' => return { g with year := some (← number) }
  | 'G' => return { g with isoYear := some (← number) }
  | 'V' => return { g with isoWeek := some (← number) }
  | 'm' => return { g with month := ← number }
  | 'B' => return { g with month := (← place monthNames) + 1 }
  | 'b' => return { g with month := (← place (monthNames.map short)) + 1 }
  | 'd' => return { g with day := ← number }
  | 'A' => return { g with weekday := some (← place dayNames) }
  | 'a' => return { g with weekday := some (← place (dayNames.map short)) }
  | 'w' => return { g with weekday := some (((← number) + 6) % 7) }
  | 'u' => return { g with weekday := some ((← number) - 1) }
  | 'j' => return { g with yearDay := some (← number) }
  | 'U' => return { g with week := some (← number, false) }
  | 'W' => return { g with week := some (← number, true) }
  | _ => return g

def daysOf? (year month day : Int) : Option Int :=
  if 1 ≤ year && year ≤ 9999 && 1 ≤ month && month ≤ 12 && 1 ≤ day &&
      day ≤ daysInMonth year month.toNat then
    some (Date.toDays ⟨year, month.toNat, day.toNat⟩)
  else none

def isDay (days : Int) : Bool := Date.toDays ⟨1, 1, 1⟩ ≤ days && days ≤ Date.toDays ⟨9999, 12, 31⟩

/-- The day of the year of a weekday in a week; weeks start on Monday or on Sunday, and days before
the first such day are week zero. -/
def yearDayOfWeek (year week weekday : Int) (mondayFirst : Bool) : Int :=
  let first := weekday' year
  let first := if mondayFirst then first else (first + 1) % 7
  let weekday := if mondayFirst then weekday else (weekday + 1) % 7
  let start := (7 - first) % 7
  if week = 0 then 1 + weekday - first else 1 + start + 7 * (week - 1) + weekday
where
  weekday' (year : Int) : Int := (Date.toDays ⟨year, 1, 1⟩ + 3) % 7

/-- The day of the year that the parts give without a month, if they do. The distance is from the
first day of the given year. -/
def Given.distance? (year : Int) : Option Int :=
  match g.yearDay, g.weekday, g.week with
  | some n, _, _ => some (n - 1)
  | none, some d, some (w, mondayFirst) => some (yearDayOfWeek year w d mondayFirst - 1)
  | none, _, _ => none

def Given.days? (year : Int) : Option Int :=
  match g.isoYear, g.isoWeek with
  | some iso, some w =>
    match g.yearDay, g.weekday with
    | none, some d =>
      if iso < 1 ∨ 9999 < iso then none
      else if g.week.isSome then (daysOf? year 1 1).bind fun first => (g.distance? year).map (first + ·)
      else some (firstWeekStart iso + 7 * (w - 1) + d)
    | _, _ => none
  | some _, none | none, some _ => none
  | none, none =>
    match daysOf? year 1 1 with
    | none => none
    | some first =>
      match g.distance? year with
      | some n => some (first + n)
      | none => daysOf? year g.month g.day

/-- The date of the parts exists. Without a year it is looked for in 1900, though its day is counted
in a leap year if it is the 29th of February. -/
def Given.dateExists : Bool :=
  let leapDay := g.year.isNone && g.month == 2 && g.day == 29
  let year := g.year.getD (if leapDay then 1904 else 1900)
  match g.days? year with
  | none => false
  | some days =>
    let date := Date.ofDays days
    isDay days && (!leapDay || (daysOf? 1900 date.month date.day).isSome)

def offsetHolds (s : String) : Bool :=
  match s.toList with
  | [c] => c = 'Z'
  | _ :: rest =>
    let colons := rest[2]? = some ':'
    let digits := (rest.takeWhile (· ≠ '.')).filter (· ≠ ':')
    let long := 4 < digits.length
    let fourth := if colons then rest[5]? else rest[4]?
    let hours := (intOfText? (String.ofList (digits.take 2))).getD 0
    hours < 24 && (!long || (fourth = some ':') == colons)
  | [] => true

def Parts.clockHolds : Bool := ((ps.number? 'S').getD 0) ≤ 59 && ((ps.text? 'z').map offsetHolds).getD true

def accepts (format date : String) : Outcome Bool := do
  match compile (expand (joinBlanks format.toList)) with
  | none => return false
  | some (ps, used) =>
    if used.eraseDups.length < used.length then throw .badPattern
    match Pattern.matchAt { ignoreCase := true } (all ps) false (Pattern.Cursor.start date.toList) with
    | none => return false
    | some (m, _) =>
      let parts : Parts := m.groups
      let given := used.foldlM (fun g c => g.take parts c) ({} : Given)
      return m.text.length = date.length && parts.clockHolds && given.any Given.dateExists

end CodeAudit.Time.Format

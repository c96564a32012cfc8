import CodeAudit.Proofs.NumberText
import CodeAudit.Time.DateTime

/-! The text of a point in time without a place is read back as that point, for every day of the
years 1 to 9999. -/

namespace CodeAudit.Time

open Date Option List

/-! The calendar. -/

theorem yearOfEra_bounds {d y : Int} (h : 0 ≤ d) (h' : d < 146097)
    (hyear : y = (d - d / 1460 + d / 36524 - d / 146096) / 365) :
    0 ≤ y ∧ y < 400 ∧ 365 * y + y / 4 - y / 100 ≤ d ∧ d ≤ 365 * y + y / 4 - y / 100 + 365 ∧
      (d = 365 * y + y / 4 - y / 100 + 365 → y % 4 = 3 ∧ (y % 100 ≠ 99 ∨ y = 399)) := by
  -- The centuries of an era; only its last day counts as a fifth.
  have hcentury : d / 36524 = 4 ∧ d / 146096 = 1 ∨ y / 100 = d / 36524 ∧ d / 146096 = 0 := by
    have hcases : d / 36524 = 0 ∨ d / 36524 = 1 ∨ d / 36524 = 2 ∨ d / 36524 = 3 ∨ d / 36524 = 4 := by omega
    rcases hcases with hc | hc | hc | hc | hc <;> omega
  rcases hcentury with ⟨hcentury, hlast⟩ | ⟨hcentury, hlast⟩
  · omega
  · have hquad : d / 1460 = y / 4 ∨ d / 1460 = y / 4 + 1 := by omega
    have hmod : y % 4 = 0 ∨ y % 4 = 1 ∨ y % 4 = 2 ∨ y % 4 = 3 := by omega
    rcases hquad with hquad | hquad <;> rcases hmod with hmod | hmod | hmod | hmod <;> omega

def marchDate (year dayOfYear : Int) : Date :=
  let month := (5 * dayOfYear + 2) / 153
  let day := dayOfYear - (153 * month + 2) / 5 + 1
  let month := if month < 10 then month + 3 else month - 9
  { year := if month ≤ 2 then year + 1 else year, month := month.toNat, day := day.toNat }

theorem marchDate_spec (year dayOfYear : Int) (h : 0 ≤ dayOfYear) (h' : dayOfYear ≤ 365)
    (hleap : dayOfYear = 365 → isLeap (year + 1)) :
    (marchDate year dayOfYear).toDays = year / 400 * 146097 + (year - year / 400 * 400) * 365 +
        (year - year / 400 * 400) / 4 - (year - year / 400 * 400) / 100 + dayOfYear - 719468 ∧
      1 ≤ (marchDate year dayOfYear).month ∧ (marchDate year dayOfYear).month ≤ 12 ∧
      1 ≤ (marchDate year dayOfYear).day ∧ (marchDate year dayOfYear).day ≤
        daysInMonth (marchDate year dayOfYear).year (marchDate year dayOfYear).month := by
  have hmonth : 0 ≤ (5 * dayOfYear + 2) / 153 ∧ (5 * dayOfYear + 2) / 153 ≤ 11 := by omega
  unfold marchDate toDays
  generalize hm : (5 * dayOfYear + 2) / 153 = month at *
  obtain ⟨hm0, hm1⟩ := hmonth
  dsimp only
  refine ⟨by split_ifs <;> omega, by split_ifs <;> omega, by split_ifs <;> omega, by omega, ?_⟩
  by_cases hlast : dayOfYear = 365
  · have := hleap hlast
    interval_cases month <;> simp [daysInMonth, this] <;> omega
  · interval_cases month <;> simp [daysInMonth] <;> omega

theorem Date.ofDays_spec (days : Int) :
    (ofDays days).toDays = days ∧ 1 ≤ (ofDays days).month ∧ (ofDays days).month ≤ 12 ∧
      1 ≤ (ofDays days).day ∧ (ofDays days).day ≤ daysInMonth (ofDays days).year (ofDays days).month := by
  obtain ⟨era, d, h, h', hdays, hmarch⟩ : ∃ era d : Int, 0 ≤ d ∧ d < 146097 ∧
      days + 719468 = era * 146097 + d ∧ ∀ y, y = (d - d / 1460 + d / 36524 - d / 146096) / 365 →
      ofDays days = marchDate (y + era * 400) (d - (365 * y + y / 4 - y / 100)) := by
    refine ⟨(days + 719468) / 146097, days + 719468 - (days + 719468) / 146097 * 146097, by omega, by omega,
      by omega, ?_⟩
    rintro y rfl
    rfl
  obtain ⟨hfirst, hlast, hlow, hhigh, hleap⟩ := yearOfEra_bounds h h' rfl
  rw [hmarch _ rfl]
  generalize (d - d / 1460 + d / 36524 - d / 146096) / 365 = y at *
  have hera : (y + era * 400) / 400 = era := by omega
  obtain ⟨hcount, hrest⟩ := marchDate_spec (y + era * 400) (d - (365 * y + y / 4 - y / 100)) (by omega) (by omega)
    (by
      intro hday
      simp only [isLeap, Bool.and_eq_true, decide_eq_true_eq, Bool.or_eq_true]
      omega)
  rw [hcount, hera, add_sub_cancel_right]
  omega

theorem daysInMonth_le (year : Int) (month : Nat) : daysInMonth year month ≤ 31 := by
  unfold daysInMonth
  cases isLeap year <;> split <;> decide

theorem Date.ofDays_year {days : Int} (h : -719162 ≤ days) (h' : days ≤ 2932896) :
    1 ≤ (ofDays days).year ∧ (ofDays days).year ≤ 9999 := by
  obtain ⟨hdays, hm1, hm2, hd1, hd2⟩ := ofDays_spec days
  have hd3 := daysInMonth_le (ofDays days).year (ofDays days).month
  generalize ofDays days = d at *
  unfold toDays at hdays
  dsimp only at hdays
  by_cases hm : d.month ≤ 2
  · constructor <;> omega
  · constructor <;> omega

open Json

theorem padded_toList (width n : Nat) : (padded width n).toList = paddedDigits 10 width n := by
  simp [padded, Text.padLeft, natText, paddedDigits]

theorem digits?_padded {width n : Nat} (hwidth : 0 < width) (h : n < 10 ^ width) (rest : Chars) :
    digits? width ((padded width n).toList ++ rest) = some (n, rest) := by
  obtain ⟨hlength, hall, hvalue⟩ := paddedDigits_spec hwidth h
  rw [padded_toList]
  unfold digits?
  dsimp only
  rw [take_append_of_le_length hlength.ge, drop_append_of_le_length hlength.ge,
    take_of_length_le hlength.le, drop_of_length_le hlength.le, nil_append, hvalue]
  simp only [hlength, decide_true, Bool.true_and]
  rw [if_pos (all_eq_true.mpr hall)]

theorem padded_two {n : Nat} (h : n < 100) : (padded 2 n).toList = [(n / 10).digitChar, (n % 10).digitChar] := by
  rw [padded_toList, paddedDigits_succ (by decide) (by decide), paddedDigits_one (by omega)]
  rfl

theorem digitChar_ne_mark : ∀ n < 10, n.digitChar ≠ 'W' := by decide

theorem Date.text_toList (year month day : Nat) : (text ⟨year, month, day⟩).toList =
    (padded 4 year).toList ++ '-' :: ((padded 2 month).toList ++ '-' :: ((padded 2 day).toList ++ [])) := by
  simp [text]

variable {year month day micros : Nat} {t : DateTime}

theorem Date.text_length (hyear : year < 10000) (hmonth : month < 100) (hday : day < 100) :
    (text ⟨year, month, day⟩).toList.length = 10 := by
  rw [text_toList, padded_two hmonth, padded_two hday, padded_toList, length_append,
    (paddedDigits_spec (by decide) hyear).1]
  rfl

theorem dateLength_text (hyear : year < 10000) (hmonth : month < 100) (hday : day < 100)
    (rest : Chars) : dateLength ((text ⟨year, month, day⟩).toList ++ rest) = some 10 := by
  have hlength := text_length hyear hmonth hday
  have hyears : (padded 4 year).toList.length = 4 := by
    rw [padded_toList]
    exact (paddedDigits_spec (by decide) hyear).1
  have hdash : ((text ⟨year, month, day⟩).toList ++ rest)[4]? = some '-' := by
    rw [text_toList, append_assoc, getElem?_append_right hyears.le, hyears]
    rfl
  have hmark : ((text ⟨year, month, day⟩).toList ++ rest)[5]? ≠ some 'W' := by
    rw [text_toList, append_assoc, getElem?_append_right (by omega), hyears, padded_two hmonth]
    intro h
    exact digitChar_ne_mark _ (by omega) (Option.some.inj h)
  have hshort : ¬ ((text ⟨year, month, day⟩).toList ++ rest).length < 7 := by
    rw [length_append]
    omega
  have hseven : ((text ⟨year, month, day⟩).toList ++ rest).length ≠ 7 := by
    rw [length_append]
    omega
  unfold dateLength
  rw [if_neg hshort, if_neg hseven, if_pos hdash, if_neg hmark]

theorem readDate?_text (hyear : year < 10000) (hmonth : month < 100) (hday : day < 100) :
    readDate? (text ⟨year, month, day⟩).toList = some (.ofParts year month day) := by
  rw [text_toList]
  unfold readDate?
  rw [digits?_padded (by decide) hyear]
  simp only [bind_eq_bind, bind_some]
  split
  · next more heq =>
    -- The month begins with a digit and not with the mark of a week.
    rw [padded_two hmonth] at heq
    exact absurd (cons.inj heq).1 (digitChar_ne_mark _ (by omega))
  · rw [digits?_padded (by decide) hmonth]
    simp only [bind_some]
    rw [digits?_padded (by decide) hday]
    rfl

/-! The clock of so many microseconds, as it is written and read. -/

def clockOf (n : Nat) : RawClock := ⟨n / 1000000 / 3600, n / 1000000 / 60 % 60, n / 1000000 % 60, n % 1000000⟩

def fractionText (micros : Nat) : Chars := if micros = 0 then [] else '.' :: (padded 6 micros).toList

def dayTimeText (n : Nat) : Chars :=
  (padded 2 (n / 1000000 / 3600)).toList ++ ':' :: ((padded 2 (n / 1000000 / 60 % 60)).toList ++ ':' ::
    ((padded 2 (n / 1000000 % 60)).toList ++ fractionText (n % 1000000)))

variable (c : RawClock)

theorem readFraction?_padded (h : micros < 1000000) :
    readFraction? c (padded 6 micros).toList = some ({ c with micros }, false) := by
  have hlength : (padded 6 micros).toList.length = 6 := by
    rw [padded_toList]
    exact (paddedDigits_spec (by decide) h).1
  have hread := digits?_padded (show 0 < 6 by decide) h []
  rw [append_nil] at hread
  simp [readFraction?, hlength, hread]

theorem readClock?_next (fuel place : Nat) (c : RawClock) {n : Nat} (hn : n < 100) {more : Chars}
    (hmore : more ≠ []) : readClock? (fuel + 1) place true c ((padded 2 n).toList ++ ':' :: more) =
      readClock? fuel (place + 1) true (c.set place n) more := by
  rw [readClock?, digits?_padded (by decide) hn]
  simp [hmore]

theorem readClock?_minute {minute : Nat} (hminute : minute < 100) :
    readClock? 2 1 true c ((padded 2 minute).toList ++ []) = some ({ c with minute }, false) := by
  rw [readClock?, digits?_padded (by decide) hminute]
  rfl

theorem readClock?_last (hc : c.micros = 0) {second : Nat} (hsecond : second < 100)
    (hmicros : micros < 1000000) : readClock? 1 2 true c ((padded 2 second).toList ++ fractionText micros) =
      some ({ c with second, micros }, false) := by
  rw [readClock?, digits?_padded (by decide) hsecond]
  unfold fractionText
  by_cases h : micros = 0
  · simp [h, hc, RawClock.set]
  · have hne : (padded 6 micros).toList ≠ [] := by
      rw [padded_toList]
      exact ne_nil_of_length_pos (by rw [(paddedDigits_spec (by decide) hmicros).1]; decide)
    simp only [if_neg h, bind_eq_bind, bind_some, RawClock.set]
    rw [readFraction?_padded _ hmicros]
    simp [hne]

variable {n : Nat}

theorem hour_lt (h : n < dayMicros) : n / 1000000 / 3600 < 24 := by
  unfold dayMicros at h
  omega

theorem clock?_dayTimeText (h : n < dayMicros) : clock? (dayTimeText n) = some (clockOf n, false) := by
  have hhour := hour_lt h
  have hminute : n / 1000000 / 60 % 60 < 100 := by omega
  have hsecond : n / 1000000 % 60 < 100 := by omega
  rw [clock?, dayTimeText, readClock?_next 2 0 _ (by omega) (by simp),
    readClock?_next 1 1 _ hminute (by simp [padded_two hsecond]), readClock?_last _ rfl hsecond (by omega)]
  rfl

theorem clockOf_seconds (n : Nat) :
    (clockOf n).hour * 3600 + (clockOf n).minute * 60 + (clockOf n).second = n / 1000000 := by
  simp only [clockOf]
  omega

theorem check_clockOf (h : n < dayMicros) : (clockOf n).check = .ok n := by
  have hhour : ¬ 23 < (clockOf n).hour := Nat.not_lt.mpr (Nat.le_of_lt_succ (hour_lt h))
  have hminute : ¬ 59 < (clockOf n).minute := Nat.not_lt.mpr (Nat.le_of_lt_succ (Nat.mod_lt _ (by decide)))
  have hsecond : ¬ 59 < (clockOf n).second := Nat.not_lt.mpr (Nat.le_of_lt_succ (Nat.mod_lt _ (by decide)))
  rw [RawClock.check, if_neg hhour, if_neg hminute, if_neg hsecond, clockOf_seconds, clockOf, Nat.div_add_mod']

theorem startsOffset_padded (width n : Nat) : ∀ c ∈ (padded width n).toList, startsOffset c = false := by
  intro c hc
  rw [padded_toList] at hc
  have hdigit := (allDigits_zeros _).append (allDigits_toDigits n) c hc
  by_contra h
  simp only [startsOffset, Bool.not_eq_false, Bool.or_eq_true, beq_iff_eq] at h
  rcases h with (rfl | rfl) | rfl <;> revert hdigit <;> decide

theorem startsOffset_fraction (micros : Nat) : ∀ c ∈ fractionText micros, startsOffset c = false := by
  unfold fractionText
  split_ifs
  · simp
  · rw [forall_mem_cons]
    exact ⟨rfl, startsOffset_padded 6 micros⟩

theorem startsOffset_dayTimeText (n : Nat) : ∀ c ∈ dayTimeText n, startsOffset c = false := by
  simp only [dayTimeText, forall_mem_append, forall_mem_cons]
  exact ⟨startsOffset_padded 2 _, rfl, startsOffset_padded 2 _, rfl, startsOffset_padded 2 _, startsOffset_fraction _⟩

/-! The distance from universal time, after its sign. One of less than a second is read as none at
all. -/

def signOf (offset : Int) : Char := if offset < 0 then '-' else '+'

theorem exists_offsetText {offset : Int} (h : offset.natAbs < dayMicros) :
    ∃ rest, (offsetText offset).toList = signOf offset :: rest ∧
      clock? rest = some (clockOf offset.natAbs, false) := by
  have hhour := hour_lt h
  have hminute : offset.natAbs / 1000000 / 60 % 60 < 100 := by omega
  by_cases hwhole : offset.natAbs / 1000000 % 60 = 0 ∧ offset.natAbs % 1000000 = 0
  · refine ⟨(padded 2 (offset.natAbs / 1000000 / 3600)).toList ++ ':' ::
      ((padded 2 (offset.natAbs / 1000000 / 60 % 60)).toList ++ []), ?_, ?_⟩
    · unfold offsetText signOf
      split_ifs <;> simp_all
    · rw [clock?, readClock?_next 2 0 _ (by omega) (by simp [padded_two hminute]), readClock?_minute _ hminute]
      simp [RawClock.set, clockOf, hwhole]
  · refine ⟨dayTimeText offset.natAbs, ?_, clock?_dayTimeText h⟩
    unfold offsetText signOf dayTimeText fractionText
    split_ifs <;> simp_all

theorem distance_signOf {offset : Int} (h : offset = 0 ∨ 1000000 ≤ offset.natAbs) :
    (clockOf offset.natAbs).distance (signOf offset) = offset := by
  simp only [RawClock.distance, signOf, clockOf_seconds]
  simp only [clockOf]
  by_cases hneg : offset < 0
  · rw [if_pos hneg, if_pos rfl]
    split_ifs <;> omega
  · rw [if_neg hneg, if_neg (by decide)]
    split_ifs <;> omega

theorem dayTimeText_split (n : Nat) (rest : Chars) (hrest : ∀ c ∈ rest.head?, startsOffset c) :
    (dayTimeText n ++ rest).takeWhile (!startsOffset ·) = dayTimeText n ∧
      (dayTimeText n ++ rest).dropWhile (!startsOffset ·) = rest := by
  have hnone : ∀ c ∈ dayTimeText n, (!startsOffset c) := fun c hc => by
    rw [startsOffset_dayTimeText n c hc]
    rfl
  rw [takeWhile_append_of_pos hnone, dropWhile_append_of_pos hnone]
  cases rest with
  | nil => simp
  | cons c rest => simp [hrest c rfl]

namespace DateTime

structure OnCalendar (t : DateTime) : Prop where
  first : -719162 ≤ t.day
  last : t.day ≤ 2932896
  micros : t.micros < dayMicros
  offset : t.offset = none

structure IsReadable (t : DateTime) : Prop where
  first : -719162 ≤ t.day
  last : t.day ≤ 2932896
  micros : t.micros < dayMicros
  offset : ∀ o ∈ t.offset, (o = 0 ∨ 1000000 ≤ o.natAbs) ∧ o.natAbs < dayMicros

theorem text_toList (t : DateTime) : t.text.toList = (ofDays t.day).text.toList ++ 'T' ::
    (dayTimeText t.micros ++ ((t.offset.map offsetText).getD "").toList) := by
  by_cases hm : t.micros % 1000000 = 0 <;> simp [text, clockText, secondOfDay, dayTimeText, fractionText, hm]

theorem readTime?_text (h : t.IsReadable) :
    readTime? (dayTimeText t.micros ++ ((t.offset.map offsetText).getD "").toList) =
      some (clockOf t.micros, t.offset) := by
  have hclock := clock?_dayTimeText h.micros
  cases ho : t.offset with
  | none =>
    obtain ⟨htake, hdrop⟩ := dayTimeText_split t.micros [] (by simp)
    simp only [Option.map_none, Option.getD_none, String.toList_empty]
    unfold readTime?
    rw [htake, hdrop, hclock]
    rfl
  | some o =>
    obtain ⟨hlong, hshort⟩ := h.offset o ho
    obtain ⟨rest, htext, hread⟩ := exists_offsetText hshort
    have hsign : startsOffset (signOf o) ∧ signOf o ≠ 'Z' := by
      unfold signOf
      split_ifs <;> decide
    obtain ⟨htake, hdrop⟩ := dayTimeText_split t.micros (signOf o :: rest) (by simp [hsign.1])
    simp only [Option.map_some, Option.getD_some, htext]
    unfold readTime?
    rw [htake, hdrop, hclock]
    simp [hsign.2, hread, distance_signOf hlong]

theorem parse_text_of_readable (h : t.IsReadable) : parse t.text = .ok t := by
  obtain ⟨hdays, hm1, hm2, hd1, hd2⟩ := ofDays_spec t.day
  obtain ⟨hy1, hy2⟩ := ofDays_year h.first h.last
  have hd3 := daysInMonth_le (ofDays t.day).year (ofDays t.day).month
  have htext := text_toList t
  obtain ⟨year, month, day, hdate⟩ : ∃ year month day : Nat, ofDays t.day = ⟨year, month, day⟩ :=
    ⟨(ofDays t.day).year.toNat, (ofDays t.day).month, (ofDays t.day).day, by rw [Int.toNat_of_nonneg (by omega)]⟩
  rw [hdate] at hdays hm1 hm2 hd1 hd2 hd3 hy1 hy2 htext
  dsimp only at hm1 hm2 hd1 hd2 hd3 hy1 hy2
  have hyear : year < 10000 := by omega
  have hmonth : month < 100 := by omega
  have hday : day < 100 := by omega
  have hlength := text_length hyear hmonth hday
  have hcheckDay : (RawDate.ofParts year month day).check = .ok t.day := by
    rw [RawDate.check, if_neg (by omega), if_neg (by simp; omega), if_neg (by simp; omega), hdays]
  have hoffset : ¬ dayMicros ≤ (t.offset.getD 0).natAbs := by
    cases ho : t.offset with
    | none => decide
    | some o => exact Nat.not_le.mpr (h.offset o ho).2
  unfold parse
  dsimp only
  rw [htext, dateLength_text hyear hmonth hday]
  simp only [bind_eq_bind, bind_some, length_append, length_cons]
  rw [take_left' hlength, readDate?_text hyear hmonth hday, bind_some, if_pos (by omega),
    drop_append, hlength, drop_of_length_le (by omega)]
  simp only [drop_succ_cons, drop_zero, nil_append, readTime?_text h, bind_some, pure]
  rw [if_neg hoffset, hcheckDay, check_clockOf h.micros]
  rfl

theorem parse_text (h : t.OnCalendar) : parse t.text = .ok t :=
  parse_text_of_readable ⟨h.first, h.last, h.micros, by simp [h.offset]⟩

end DateTime

end CodeAudit.Time

import CodeAudit.Json
import CodeAudit.Proofs.FloatBounds

/-! The text of a number is read back as that number, whatever stands after it that does not
continue it: whole numbers up to the greatest number of digits, floating numbers always. -/

namespace CodeAudit.Json

open CodeAudit.Dyadic Nat List

theorem digitsValue_eq (ds : Chars) : digitsValue ds = ofDigitChars 10 ds 0 := by
  rw [digitsValue]
  congr 1
  funext n c
  rw [mul_comm]
  rfl

theorem digitsValue_append (ds es : Chars) :
    digitsValue (ds ++ es) = digitsValue ds * 10 ^ es.length + digitsValue es := by
  rw [digitsValue_eq, digitsValue_eq, digitsValue_eq, ofDigitChars_append,
    ofDigitChars_eq_ofDigitChars_zero, mul_comm]

variable (n : Nat)

theorem digitsValue_zeros : digitsValue (replicate n '0') = 0 := by
  rw [digitsValue_eq, ofDigitChars_replicate_zero, mul_zero]

theorem digitsValue_toDigits : digitsValue (toDigits 10 n) = n := by rw [digitsValue_eq, ofDigitChars_ten_toDigits]

def AllDigits (ds : Chars) : Prop := ∀ c ∈ ds, c.isDigit = true

theorem allDigits_toDigits : AllDigits (toDigits 10 n) :=
  fun _ hc => isDigit_of_mem_toDigits (by decide) (by decide) hc

theorem allDigits_zeros : AllDigits (replicate n '0') := by
  intro c hc
  rw [eq_of_mem_replicate hc]
  rfl

variable {ds : Chars}

theorem AllDigits.append {es : Chars} (h : AllDigits ds) (h' : AllDigits es) : AllDigits (ds ++ es) := by
  intro c hc
  rcases mem_append.mp hc with hc | hc
  · exact h c hc
  · exact h' c hc

theorem toDigits_length_bounds {n : Nat} (h : 0 < n) :
    10 ^ ((toDigits 10 n).length - 1) ≤ n ∧ n < 10 ^ (toDigits 10 n).length := by
  have hpos := length_toDigits_pos (b := 10) (n := n)
  constructor
  · by_cases hone : (toDigits 10 n).length - 1 = 0
    · rw [hone]
      exact h
    · by_contra hlt
      have := (Nat.length_toDigits_le_iff (by decide) (Nat.pos_of_ne_zero hone)).mpr (Nat.lt_of_not_le hlt)
      omega
  · exact (length_toDigits_le_iff (by decide) hpos).mp (le_refl _)

theorem toDigits_cons : 0 < n → ∃ c ds, toDigits 10 n = c :: ds ∧ c ≠ '0' := by
  induction n using Nat.strong_induction_on with
  | h n ih =>
    intro hn
    rcases lt_or_ge n 10 with hlt | hge
    · rw [toDigits_of_lt_base hlt]
      refine ⟨n.digitChar, [], rfl, ?_⟩
      interval_cases n <;> decide
    · obtain ⟨c, ds, hds, hc⟩ := ih (n / 10) (by omega) (by omega)
      exact ⟨c, ds ++ [(n % 10).digitChar], by rw [toDigits_of_base_le (by decide) hge, hds]; rfl, hc⟩

def paddedDigits (base width n : Nat) : Chars :=
  replicate (width - (toDigits base n).length) '0' ++ toDigits base n

theorem paddedDigits_one {base n : Nat} (h : n < base) : paddedDigits base 1 n = [n.digitChar] := by
  simp [paddedDigits, toDigits_of_lt_base h]

theorem paddedDigits_succ {base width : Nat} (hbase : 1 < base) (hwidth : 0 < width) (n : Nat) :
    paddedDigits base (width + 1) n = paddedDigits base width (n / base) ++ [(n % base).digitChar] := by
  unfold paddedDigits
  rcases lt_or_ge n base with hlt | hge
  · obtain ⟨w, rfl⟩ := exists_eq_succ_of_ne_zero hwidth.ne'
    rw [toDigits_of_lt_base hlt, div_eq_of_lt hlt, mod_eq_of_lt hlt]
    simp [← replicate_succ']
  · rw [Nat.toDigits_of_base_le hbase hge, length_append, length_singleton, Nat.add_sub_add_right,
      append_assoc]

theorem paddedDigits_spec {width n : Nat} (hwidth : 0 < width) (h : n < 10 ^ width) :
    (paddedDigits 10 width n).length = width ∧ AllDigits (paddedDigits 10 width n) ∧
      digitsValue (paddedDigits 10 width n) = n := by
  have hlength := (length_toDigits_le_iff (by decide) hwidth).mpr h
  refine ⟨?_, (allDigits_zeros _).append (allDigits_toDigits n), ?_⟩
  · rw [paddedDigits, length_append, length_replicate]
    omega
  · rw [paddedDigits, digitsValue_append, digitsValue_zeros, digitsValue_toDigits, zero_mul, zero_add]

/-! The parts of a number. -/

def Ends (rest : Chars) : Prop := ∀ c ∈ rest.head?, c.isDigit = false ∧ c ≠ '.' ∧ c ≠ 'e' ∧ c ≠ 'E'

variable {rest : Chars}

theorem span_digits (hds : AllDigits ds) (hrest : ∀ c ∈ rest.head?, c.isDigit = false) :
    (ds ++ rest).takeWhile Char.isDigit = ds ∧ (ds ++ rest).dropWhile Char.isDigit = rest := by
  rw [takeWhile_append_of_pos hds, dropWhile_append_of_pos hds]
  cases rest with
  | nil => simp
  | cons c rest => simp [hrest c rfl]

variable {c : Char} {d : Decimal}

theorem wholePart_digits (hc : c ≠ '0') (hds : AllDigits (c :: ds)) (rest : Chars)
    (hrest : ∀ c ∈ rest.head?, c.isDigit = false) : wholePart (c :: ds ++ rest) = some (c :: ds, rest) := by
  obtain ⟨htake, hdrop⟩ := span_digits hds hrest
  unfold wholePart
  split
  · next heq => exact absurd (List.cons.inj heq).1 hc
  · rw [htake, hdrop]
    rfl

theorem fractionPart_digits (hne : ds ≠ []) (hds : AllDigits ds) (rest : Chars)
    (hrest : ∀ c ∈ rest.head?, c.isDigit = false) : fractionPart ('.' :: (ds ++ rest)) = (ds, rest) := by
  obtain ⟨htake, hdrop⟩ := span_digits hds hrest
  simp only [fractionPart, htake, hdrop, List.isEmpty_iff, if_neg hne]

theorem fractionPart_of_ne (rest : Chars) (h : ∀ c ∈ rest.head?, c ≠ '.') : fractionPart rest = ([], rest) := by
  unfold fractionPart
  split
  · exact absurd rfl (h '.' rfl)
  · rfl

variable (negative : Bool)

theorem exponentPart_mark (hne : ds ≠ []) (hds : AllDigits ds)
    (hrest : ∀ c ∈ rest.head?, c.isDigit = false) :
    exponentPart ('e' :: (if negative then '-' else '+') :: (ds ++ rest)) =
      (some (if negative then -(digitsValue ds : Int) else digitsValue ds), rest) := by
  obtain ⟨htake, hdrop⟩ := span_digits hds hrest
  cases negative <;> simp [exponentPart, htake, hdrop, hne]

theorem exponentPart_of_ne (h : ∀ c ∈ rest.head?, c ≠ 'e' ∧ c ≠ 'E') : exponentPart rest = (none, rest) := by
  cases rest with
  | nil => rfl
  | cons c rest =>
    obtain ⟨he, hE⟩ := h c rfl
    simp [exponentPart, he, hE]

def signChars : Chars := if negative then ['-'] else []

theorem signPart_signChars (body : Chars) (hc : c ≠ '-') :
    signPart (signChars negative ++ c :: body) = (negative, c :: body) := by
  cases negative with
  | true => rfl
  | false =>
    unfold signPart
    split
    · next heq => exact absurd (cons.inj heq).1 hc
    · rfl

section Parts

variable (negative : Bool) {c : Char} {body whole fraction rest₁ rest₂ rest : Chars} {exponent : Option Int}

theorem number?_whole (hc : c ≠ '-') (hw : wholePart (c :: body) = some (whole, rest))
    (hf : fractionPart rest = ([], rest)) (he : exponentPart rest = (none, rest))
    (hlength : whole.length ≤ maxDigits) : number? (signChars negative ++ c :: body) =
      some (.ok (.int (if negative then -(digitsValue whole : Int) else digitsValue whole), rest)) := by
  unfold number?
  rw [signPart_signChars negative body hc]
  simp only [hw, hf, he]
  rw [if_neg (not_lt.mpr hlength)]
  rfl

theorem number?_float (hc : c ≠ '-') (hw : wholePart (c :: body) = some (whole, rest₁))
    (hf : fractionPart rest₁ = (fraction, rest₂)) (he : exponentPart rest₂ = (exponent, rest))
    (hsome : ¬ (fraction.isEmpty ∧ exponent.isNone)) : number? (signChars negative ++ c :: body) =
      some (.ok (.float (floatOfDigits negative (digitsValue (whole ++ fraction))
        (exponent.getD 0 - fraction.length)), rest)) := by
  unfold number?
  rw [signPart_signChars negative body hc]
  simp only [hw, hf, he]
  rw [if_neg hsome]
  rfl

end Parts

/-! Whole numbers. -/

theorem digit_ne (h : c.isDigit) : c ≠ '-' ∧ c ≠ '.' ∧ c ≠ 'e' ∧ c ≠ 'E' := by
  refine ⟨?_, ?_, ?_, ?_⟩ <;>
    · rintro rfl
      revert h
      decide

theorem wholePart_toDigits (hrest : ∀ c ∈ rest.head?, c.isDigit = false) :
    wholePart (toDigits 10 n ++ rest) = some (toDigits 10 n, rest) := by
  rcases Nat.eq_zero_or_pos n with rfl | hn
  · rfl
  · obtain ⟨c, ds, hds, hc⟩ := toDigits_cons n hn
    have hall := allDigits_toDigits n
    rw [hds] at hall ⊢
    exact wholePart_digits hc hall rest hrest

theorem intText_toList (n : Int) : (intText n).toList = signChars (decide (n < 0)) ++ toDigits 10 n.natAbs := by
  by_cases h : n < 0 <;> simp [intText, natText, signChars, h]

theorem number?_intText {n : Int} (hn : (toDigits 10 n.natAbs).length ≤ maxDigits)
    (hrest : Ends rest) : number? ((intText n).toList ++ rest) = some (.ok (.int n, rest)) := by
  have hw := wholePart_toDigits n.natAbs fun c hc => (hrest c hc).1
  have hall := allDigits_toDigits n.natAbs
  have hvalue := digitsValue_toDigits n.natAbs
  rw [intText_toList, append_assoc]
  cases hds : toDigits 10 n.natAbs with
  | nil => exact absurd hds toDigits_ne_nil
  | cons c ds =>
    rw [hds] at hw hall hn hvalue
    rw [cons_append] at hw ⊢
    rw [number?_whole _ (digit_ne (hall c (by simp))).1 hw (fractionPart_of_ne rest fun c hc => (hrest c hc).2.1)
      (exponentPart_of_ne fun c hc => (hrest c hc).2.2) hn]
    by_cases hneg : n < 0
    · rw [if_pos (by simpa using hneg)]
      congr 4
      omega
    · rw [if_neg (by simpa using hneg)]
      congr 4
      omega

theorem trim_eq (h : 0 < d.digits) : 0 < d.trim.digits ∧ d.trim.value = d.value := by
  unfold Decimal.trim
  rw [if_neg h.ne']
  generalize hfind : find? _ _ = found
  have hzeros : 10 ^ found.getD 0 ∣ d.digits := by
    cases found with
    | none => exact one_dvd _
    | some n => exact dvd_of_mod_eq_zero (by simpa using find?_some hfind)
  generalize found.getD 0 = zeros at *
  obtain ⟨digits, hdigits⟩ := hzeros
  have hpos : 0 < 10 ^ zeros := by positivity
  unfold Decimal.value
  rw [hdigits] at h ⊢
  rw [pow_eq, Nat.mul_div_cancel_left _ hpos, zpow_add₀ (by norm_num), Int.ofNat_eq_natCast, zpow_natCast]
  refine ⟨Nat.pos_of_mul_pos_left h, ?_⟩
  push_cast
  ring

def ReadsAs (text : Chars) (q : ℚ) : Prop :=
  ∀ negative rest, Ends rest → ∃ (digits : Nat) (scale : Int), 0 < digits ∧ (digits : ℚ) * 10 ^ scale = q ∧
    number? (signChars negative ++ (text ++ rest)) =
      some (.ok (.float (floatOfDigits negative digits scale), rest))

theorem readsAs_point {fraction : Chars} (hc : c ≠ '0' ∨ ds = []) (hds : AllDigits (c :: ds))
    (hfraction : AllDigits fraction) (hne : fraction ≠ []) (hpos : 0 < digitsValue (c :: ds ++ fraction)) :
    ReadsAs (c :: ds ++ '.' :: fraction) (digitsValue (c :: ds ++ fraction) * 10 ^ (-(fraction.length : Int))) := by
  intro negative rest hrest
  refine ⟨_, _, hpos, rfl, ?_⟩
  have hpart := fractionPart_digits hne hfraction rest fun c hc => (hrest c hc).1
  have hmark := exponentPart_of_ne fun c hc => (hrest c hc).2.2
  have hw : wholePart (c :: (ds ++ '.' :: (fraction ++ rest))) = some (c :: ds, '.' :: (fraction ++ rest)) := by
    by_cases hzero : c = '0'
    · obtain rfl := hc.resolve_left (not_not.mpr hzero)
      subst hzero
      rfl
    · exact wholePart_digits hzero hds _ (by simp)
  have := number?_float negative (digit_ne (hds c (by simp))).1 hw hpart hmark
    (by simp [hne])
  simpa using this

theorem readsAs_mark {tail size : Chars} (negative : Bool) (hc : c ≠ '0')
    (hchars : AllDigits (c :: tail)) (hsize : AllDigits size) (hne : size ≠ []) (hpos : 0 < digitsValue (c :: tail)) :
    ReadsAs (c :: ((if tail.isEmpty then [] else '.' :: tail) ++ 'e' :: (if negative then '-' else '+') :: size))
      (digitsValue (c :: tail) *
        10 ^ ((if negative then -(digitsValue size : Int) else digitsValue size) - tail.length)) := by
  intro sign rest hrest
  refine ⟨_, _, hpos, rfl, ?_⟩
  have hmark := exponentPart_mark negative hne hsize fun c hc => (hrest c hc).1
  have hone : AllDigits [c] := fun x hx => hchars x (by simp at hx; simp [hx])
  have hfirst := (digit_ne (hchars c (by simp))).1
  cases tail with
  | nil =>
    have hw := wholePart_digits hc hone ('e' :: (if negative then '-' else '+') :: (size ++ rest)) (by simp)
    have hpart := fractionPart_of_ne ('e' :: (if negative then '-' else '+') :: (size ++ rest)) (by simp)
    have := number?_float sign hfirst hw hpart hmark (by simp)
    simpa using this
  | cons d tail =>
    have hw := wholePart_digits hc hone
      ('.' :: (d :: tail ++ 'e' :: (if negative then '-' else '+') :: (size ++ rest))) (by simp)
    have hpart := fractionPart_digits (cons_ne_nil d tail)
      (fun x hx => hchars x (mem_cons_of_mem _ hx))
      ('e' :: (if negative then '-' else '+') :: (size ++ rest)) (by simp)
    have := number?_float sign hfirst hw hpart hmark (by simp)
    simpa using this

/-- The digits of a number around its point, with zeros before or after them. -/
theorem readsAs_positional {tail : Chars} (hc : c ≠ '0') (hall : AllDigits (c :: tail))
    (hpos : 0 < digitsValue (c :: tail)) {scale exponent : Int} (he : scale + tail.length = exponent) :
    let all := Decimal.zeros (-exponent) ++ c :: tail ++ Decimal.zeros (scale + 1)
    ReadsAs (all.take (exponent.toNat + 1) ++ '.' :: all.drop (exponent.toNat + 1))
      (digitsValue (c :: tail) * 10 ^ scale) := by
  intro all
  have hdigits : AllDigits all := ((allDigits_zeros _).append hall).append (allDigits_zeros _)
  have hlength : all.length = (-exponent).toNat + (tail.length + 1) + (scale + 1).toNat := by
    simp only [all, Decimal.zeros, length_append, length_cons, length_replicate]
  have hvalue : digitsValue all = digitsValue (c :: tail) * 10 ^ (scale + 1).toNat := by
    simp only [all, Decimal.zeros, digitsValue_append, digitsValue_zeros, length_replicate, zero_mul, zero_add,
      add_zero]
  obtain ⟨first, ds, htake, hfirst⟩ : ∃ first ds, all.take (exponent.toNat + 1) = first :: ds ∧
      (first ≠ '0' ∨ ds = []) := by
    by_cases hneg : exponent < 0
    · obtain ⟨n, hn⟩ : ∃ n, (-exponent).toNat = n + 1 := ⟨(-exponent).toNat - 1, by omega⟩
      exact ⟨'0', [], by simp [all, Decimal.zeros, hn, replicate_succ, show exponent.toNat = 0 by omega], .inr rfl⟩
    · exact ⟨c, _, by simp [all, Decimal.zeros, show (-exponent).toNat = 0 by omega]; rfl, .inl hc⟩
  have hjoin : first :: ds ++ all.drop (exponent.toNat + 1) = all := by rw [← htake, take_append_drop]
  have hne : all.drop (exponent.toNat + 1) ≠ [] := by
    rw [Ne, drop_eq_nil_iff]
    omega
  have hreads := readsAs_point hfirst (fun x hx => hdigits x (hjoin ▸ mem_append_left _ hx))
    (fun x hx => hdigits x (mem_of_mem_drop hx)) hne (by rw [hjoin, hvalue]; positivity)
  rw [hjoin, hvalue, length_drop] at hreads
  rw [htake]
  convert hreads using 1
  push_cast
  rw [mul_assoc, ← zpow_natCast, ← zpow_add₀ (by norm_num)]
  congr 2
  omega

theorem exponentText : ∃ size, (if (natText n).length < 2 then "0" ++ natText n else natText n) = String.ofList size ∧
      AllDigits size ∧ size ≠ [] ∧ digitsValue size = n := by
  have hall := allDigits_toDigits n
  have hvalue := digitsValue_toDigits n
  split_ifs
  · refine ⟨replicate 1 '0' ++ toDigits 10 n, ?_, (allDigits_zeros 1).append hall, by simp, ?_⟩
    · simp [natText]
    · rw [digitsValue_append, digitsValue_zeros, hvalue, zero_mul, zero_add]
  · exact ⟨_, rfl, hall, toDigits_ne_nil, hvalue⟩

theorem readsAs_layout (h : 0 < d.digits) : ReadsAs d.layout.toList d.value := by
  obtain ⟨hpos, hvalue⟩ := trim_eq h
  rw [← hvalue]
  unfold Decimal.layout
  generalize d.trim = t at *
  obtain ⟨c, tail, hchars, hc⟩ := toDigits_cons t.digits hpos
  have hall := allDigits_toDigits t.digits
  have hdigits := digitsValue_toDigits t.digits
  rw [hchars] at hall hdigits
  simp only [Decimal.value, hchars]
  rw [← hdigits] at hpos ⊢
  generalize hexponent : t.scale + ((tail.length + 1 : Nat) : Int) - 1 = exponent
  by_cases hmark : exponent < -4 ∨ 16 ≤ exponent
  · rw [if_pos hmark]
    obtain ⟨size, htext, hsize, hne, hvalue⟩ := exponentText exponent.natAbs
    have hreads := readsAs_mark (decide (exponent < 0)) hc hall hsize hne hpos
    rw [htext]
    convert hreads using 1
    · cases tail <;> by_cases hneg : exponent < 0 <;> simp [hneg]
    · congr 2
      by_cases hneg : exponent < 0
      · simp only [hneg, decide_true, if_true]
        omega
      · simp only [hneg, decide_false, Bool.false_eq_true, if_false]
        omega
  rw [if_neg hmark, String.toList_ofList]
  exact readsAs_positional hc hall hpos (by omega)

/-! Floating numbers. -/

theorem ten_zpow_lt_iff {i j : Int} : (10 : ℚ) ^ i < 10 ^ j ↔ i < j := zpow_lt_zpow_iff_right₀ (by norm_num)

theorem ten_zpow_le_value (h : 0 < d.digits) :
    (10 : ℚ) ^ (((toDigits 10 d.digits).length : Int) + d.scale - 1) ≤ d.value ∧
    d.value < 10 ^ (((toDigits 10 d.digits).length : Int) + d.scale) := by
  obtain ⟨hmin, hmax⟩ := toDigits_length_bounds h
  have hlength := length_toDigits_pos (b := 10) (n := d.digits)
  rw [show ((toDigits 10 d.digits).length : Int) + d.scale - 1 =
      ((toDigits 10 d.digits).length - 1 : Nat) + d.scale by
    omega, zpow_add₀ (by norm_num), zpow_add₀ (by norm_num), zpow_natCast]
  have hunit : (0 : ℚ) < 10 ^ d.scale := by positivity
  exact ⟨mul_le_mul_of_nonneg_right (by exact_mod_cast hmin) hunit.le,
    mul_lt_mul_of_pos_right (by exact_mod_cast hmax) hunit⟩

/-- Where it is not plainly too large or too small, a decimal is read as a quotient. -/
theorem exists_floatOfDigits (negative : Bool) (h : 0 < d.digits) : ∃ num den : Nat, (num : ℚ) / den = d.value ∧
    floatOfDigits negative d.digits d.scale =
      if 400 < ((toDigits 10 d.digits).length : Int) + d.scale then nearestFloat negative (Nat.pow 2 1100) 1
      else if ((toDigits 10 d.digits).length : Int) + d.scale < -400 then nearestFloat negative 1 (Nat.pow 2 1100)
      else nearestFloat negative num den := by
  unfold floatOfDigits Decimal.value
  rw [if_neg h.ne']
  by_cases hscale : d.scale < 0
  · refine ⟨d.digits, 10 ^ d.scale.natAbs, ?_, by rw [if_pos hscale]; rfl⟩
    rw [zpow_of_neg 10 hscale]
    push_cast
    rw [div_eq_mul_inv]
  · refine ⟨d.digits * 10 ^ d.scale.natAbs, 1, ?_, by rw [if_neg hscale]; rfl⟩
    rw [zpow_of_nonneg 10 (by omega)]
    push_cast
    rw [div_one]

theorem floatOfDigits_congr (negative : Bool) {d' : Decimal} (h : 0 < d.digits) (h' : 0 < d'.digits)
    (hvalue : d.value = d'.value) :
    floatOfDigits negative d.digits d.scale = floatOfDigits negative d'.digits d'.scale := by
  obtain ⟨num, den, hq, heq⟩ := exists_floatOfDigits negative h
  obtain ⟨num', den', hq', heq'⟩ := exists_floatOfDigits negative h'
  have hsize : ((toDigits 10 d.digits).length : Int) + d.scale = (toDigits 10 d'.digits).length + d'.scale := by
    obtain ⟨hlow, hhigh⟩ := ten_zpow_le_value h
    obtain ⟨hlow', hhigh'⟩ := ten_zpow_le_value h'
    rw [hvalue] at hlow hhigh
    have := ten_zpow_lt_iff.mp (hlow.trans_lt hhigh')
    have := ten_zpow_lt_iff.mp (hlow'.trans_lt hhigh)
    omega
  rw [heq, heq', hsize, nearestFloat_congr negative (hq.trans (hvalue.trans hq'.symm))]

theorem ofFloat?_floatOfDigits_exact {d : Dyadic} (hc : d.Canonical) (hm : 0 < d.mantissa) :
    ofFloat? (floatOfDigits d.negative (Decimal.exact d).digits (Decimal.exact d).scale) = some d ∧
      0 < (Decimal.exact d).digits := by
  have hpos : 0 < (Decimal.exact d).digits := by
    unfold Decimal.exact
    dsimp only
    split_ifs <;> simp [hm]
  obtain ⟨num, den, hq, heq⟩ := exists_floatOfDigits d.negative hpos
  obtain ⟨hlow, hhigh⟩ := ten_zpow_le_value hpos
  obtain ⟨hleast, hmost⟩ := hc.size_bounds hm
  rw [value_exact] at hq hlow hhigh
  have hgreat : (2 : ℚ) ^ (d.exponent + 53) ≤ 10 ^ (400 : Int) := by
    have hle : (2 : ℚ) ^ (d.exponent + 53) ≤ 2 ^ (1024 : Int) :=
      zpow_le_zpow_right₀ (by norm_num) (by have := hc.greatest; omega)
    have hnat : 2 ^ 1024 ≤ 10 ^ 400 := by decide +kernel
    exact hle.trans (by exact_mod_cast hnat)
  have hsmall : (10 : ℚ) ^ (-400 : Int) ≤ 2 ^ d.exponent := by
    have hle : (2 : ℚ) ^ (-1074 : Int) ≤ 2 ^ d.exponent := zpow_le_zpow_right₀ (by norm_num) hc.least
    have hnat : 2 ^ 1074 ≤ 10 ^ 400 := by decide +kernel
    have hinv : ((10 : ℚ) ^ 400)⁻¹ ≤ (2 ^ 1074)⁻¹ := inv_anti₀ (by positivity) (by exact_mod_cast hnat)
    exact hinv.trans hle
  have := ten_zpow_lt_iff.mp ((hlow.trans_lt hmost).trans_le hgreat)
  have := ten_zpow_lt_iff.mp ((hsmall.trans hleast).trans_lt hhigh)
  refine ⟨?_, hpos⟩
  rw [heq, if_neg (by omega), if_neg (by omega), hc.ofFloat?_nearestFloat hm hq]

variable {d : Dyadic}

theorem floatOfDigits_shortest {x : Float} (hx : Dyadic.ofFloat? x = some d) (hm : 0 < d.mantissa) :
    floatOfDigits d.negative (Decimal.shortest d).digits (Decimal.shortest d).scale = x ∧
      0 < (Decimal.shortest d).digits := by
  suffices h : ofFloat? (floatOfDigits d.negative (Decimal.shortest d).digits (Decimal.shortest d).scale) = some d ∧
      0 < (Decimal.shortest d).digits from ⟨ofFloat?_inj h.1 hx, h.2⟩
  unfold Decimal.shortest
  dsimp only
  generalize hfind : findSome? _ _ = found
  cases found with
  | none => exact ofFloat?_floatOfDigits_exact (ofFloat?_canonical hx) hm
  | some c =>
    obtain ⟨count, -, hcount⟩ := exists_of_findSome?_eq_some hfind
    have hreads := find?_some hcount
    rw [Decimal.readsAs, decide_eq_true_eq] at hreads
    refine ⟨hreads, Nat.pos_of_ne_zero fun hzero => hm.ne' ?_⟩
    -- Nothing but a zero is read without digits.
    rw [floatOfDigits, if_pos (show c.digits = 0 from hzero)] at hreads
    cases hn : d.negative <;> rw [hn] at hreads <;> exact congrArg Dyadic.mantissa (Option.some.inj hreads).symm

theorem number?_floatText {x : Float} (hx : Dyadic.ofFloat? x = some d)
    (hrest : Ends rest) : number? ((floatText x).toList ++ rest) = some (.ok (.float x, rest)) := by
  have htext : (floatText x).toList = signChars d.negative ++
      (if d.mantissa = 0 then "0.0" else (Decimal.shortest d).layout).toList := by
    unfold floatText
    simp only [hx]
    cases d.negative <;> simp [signChars]
  rw [htext, append_assoc]
  rcases Nat.eq_zero_or_pos d.mantissa with hm | hm
  · rw [if_pos hm]
    have hpart := fractionPart_digits (cons_ne_nil '0' []) (allDigits_zeros 1) rest
      fun c hc => (hrest c hc).1
    have hwhole : wholePart ('0' :: '.' :: '0' :: rest) = some (['0'], '.' :: '0' :: rest) := rfl
    have hread := number?_float d.negative (by decide) hwhole hpart
      (exponentPart_of_ne fun c hc => (hrest c hc).2.2) (by simp)
    have hzero : ∀ scale, floatOfDigits d.negative (digitsValue ['0', '0']) scale = x := by
      intro scale
      rw [Dyadic.ofFloat?_zero hx hm, show digitsValue ['0', '0'] = 0 from rfl, floatOfDigits, if_pos rfl]
    rwa [singleton_append, hzero] at hread
  · rw [if_neg hm.ne']
    obtain ⟨hshort, hdigits⟩ := floatOfDigits_shortest hx hm
    obtain ⟨digits, scale, hpos, hvalue, hread⟩ := readsAs_layout hdigits d.negative rest hrest
    rw [hread, floatOfDigits_congr d.negative (d := ⟨digits, scale⟩) hpos hdigits hvalue, hshort]

end CodeAudit.Json

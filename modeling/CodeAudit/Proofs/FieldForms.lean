import Mathlib.Data.List.Forall2
import CodeAudit.Guard
import CodeAudit.Proofs.PatternMatch

/-! Which texts pass as names, addresses, telephone numbers and passwords: those of the grammar, and
those followed by one line feed, which the end of a form passes over. -/

namespace CodeAudit.Pattern

open List

theorem within_sign_iff {test : Char → Bool} {least : Nat} {most : Option Nat} {before s after : Chars} :
    Within (fun _ s _ => ∃ c, s = [c] ∧ test c) least most before s after ↔
      least ≤ s.length ∧ (∀ m ∈ most, s.length ≤ m) ∧ ∀ c ∈ s, test c := by
  have hrep (n : Nat) (before s after : Chars) :
      Repeated (fun _ s _ => ∃ c, s = [c] ∧ test c) n before s after ↔
        s.length = n ∧ ∀ c ∈ s, test c := by
    induction n generalizing before s with
    | zero => simp +contextual [Repeated]
    | succ n ih =>
      simp only [Repeated, ih]
      constructor
      · rintro ⟨x, y, rfl, ⟨c, rfl, hc⟩, rfl, hy⟩
        exact ⟨by simp, by simpa [hc] using hy⟩
      · rintro ⟨hlen, hs⟩
        obtain ⟨c, y, rfl⟩ := exists_cons_of_length_eq_add_one hlen
        exact ⟨[c], y, rfl, ⟨c, rfl, hs c (by simp)⟩, by simpa using hlen, fun d hd => hs d (by simp [hd])⟩
  simp only [Within, hrep]
  constructor
  · rintro ⟨n, hn, hm, rfl, hs⟩
    exact ⟨hn, hm, hs⟩
  · rintro ⟨hn, hm, hs⟩
    exact ⟨s.length, hn, hm, rfl, hs⟩

variable {p q : Pattern} {c : Cursor} {P : Chars → Prop}

theorem run_textEnd_isSome_iff (h : p.isPlain)
    (hp : ∀ w after, Spans {} p c.before w after ↔ P w) :
    (run {} (.seq p .textEnd) c .some).isSome ↔ ∃ w, (c.ahead = w ∨ c.ahead = w ++ ['\n']) ∧ P w := by
  rw [run_isSome_iff (by simpa [isPlain] using h)]
  constructor
  · rintro ⟨_, after, hs, w, _, rfl, hw, rfl, hafter⟩
    refine ⟨w, ?_, (hp w _).mp hw⟩
    obtain rfl | rfl := hafter
    · exact .inl (by simpa using hs)
    · exact .inr (by simpa using hs)
  · rintro ⟨w, hs | hs, hw⟩
    · exact ⟨w, [], by simpa using hs, w, [], by simp, (hp w _).mpr hw, rfl, .inl rfl⟩
    · exact ⟨w, ['\n'], hs, w, [], by simp, (hp w _).mpr hw, rfl, .inr rfl⟩

theorem startsAt_whole_iff (h : p.isPlain) (hp : ∀ w after, Spans {} p [] w after ↔ P w)
    (s : Chars) : startsAt (whole p) s ↔ ∃ w, (s = w ∨ s = w ++ ['\n']) ∧ P w :=
  run_textEnd_isSome_iff (c := .start s) h hp

theorem run_ahead_isSome_iff {flags : PatternFlags} (h : p.isPlain) {Q : Prop}
    (hq : ∀ groups, (run flags q { c with groups } .some).isSome ↔ Q) (groups : List (Nat × Chars)) :
    (run flags (.seq (.ahead false p) q) { c with groups } .some).isSome ↔
      (∃ s rest, c.ahead = s ++ rest ∧ Spans flags p c.before s rest) ∧ Q := by
  rw [← run_isSome_iff h { c with groups }, run, run]
  cases run flags p { c with groups } .some with
  | none => simp
  | some c' => simpa using hq c'.groups

end CodeAudit.Pattern

namespace CodeAudit.Guard

open List Pattern

def MadeOf (more : Char → Bool) (marks : String) (s : Chars) : Prop :=
  ∀ c ∈ s, c.isAlpha ∨ more c ∨ c ∈ marks.toList

variable (s : Chars)

def IsUsername : Prop := 3 ≤ s.length ∧ s.length ≤ 16 ∧ MadeOf Char.isDigit "_-" s

def IsEmail : Prop := ∃ box host top, s = box ++ '@' :: (host ++ '.' :: top) ∧
  (box ≠ [] ∧ MadeOf Char.isDigit "._%+-" box) ∧ (host ≠ [] ∧ MadeOf Char.isDigit ".-" host) ∧
  2 ≤ top.length ∧ ∀ c ∈ top, c.isAlpha

def IsPhone : Prop := ∃ plus one number, s = plus ++ (one ++ number) ∧
  (plus = [] ∨ plus = ['+']) ∧ (one = [] ∨ one = ['1']) ∧
  9 ≤ number.length ∧ number.length ≤ 15 ∧ ∀ c ∈ number, isDecimalDigit c

def IsPassword : Prop := 8 ≤ s.length ∧ MadeOf isDecimalDigit passwordMarks s ∧
  (∃ c ∈ s, c.isAlpha) ∧ (∃ c ∈ s, isDecimalDigit c) ∧ ∃ c ∈ s, c ∈ passwordMarks.toList

theorem holdsAny_letters (c : Char) : holdsAny {} basicLetters c = c.isAlpha := by
  have hupper : c.isUpper = (decide ('A' ≤ c) && decide (c ≤ 'Z')) := Bool.decide_and ..
  have halpha : c.isAlpha = (c.isUpper || decide ('a' ≤ c) && decide (c ≤ 'z')) := rfl
  rw [halpha, hupper, Bool.or_comm]
  simp [holdsAny, basicLetters, CharItem.holds]

theorem holdsAny_marks (marks : Chars) (c : Char) : holdsAny {} (marks.map .one) c ↔ c ∈ marks := by
  simp [holdsAny, CharItem.holds]

theorem holdsAny_digits (c : Char) : holdsAny {} [.range '0' '9'] c = c.isDigit := by
  simp [holdsAny, CharItem.holds, Char.isDigit, Char.le_def]

variable {least : Nat} {most : Option Nat} {before s after : Chars} {items : List CharItem} {marks : String}

theorem spans_times_letters {f : Char → Bool}
    (hf : ∀ c, holdsAny {} items c = f c) :
    Spans {} (.times least most true (lettersAnd items marks)) before s after ↔
      least ≤ s.length ∧ (∀ m ∈ most, s.length ≤ m) ∧ MadeOf f marks s := by
  have htest (c : Char) : (holdsAny {} (basicLetters ++ items ++ marks.toList.map .one) c != false) ↔
      c.isAlpha ∨ f c ∨ c ∈ marks.toList := by
    rw [← holdsAny_letters, ← hf, ← holdsAny_marks]
    simp [holdsAny]
  rw [MadeOf, ← forall₂_congr fun c _ => htest c]
  exact within_sign_iff

theorem spans_signs : Spans {} (Pattern.some (signsAnd marks)) before s after ↔
    s ≠ [] ∧ MadeOf Char.isDigit marks s := by
  rw [Pattern.some, signsAnd, spans_times_letters holdsAny_digits, ← length_pos_iff]
  simp [Nat.succ_le_iff]

theorem spans_letters : Spans {} (.times least none true (lettersAnd [] "")) before s after ↔
    least ≤ s.length ∧ ∀ c ∈ s, c.isAlpha := by
  rw [spans_times_letters (f := fun _ => false) fun _ => rfl]
  simp [MadeOf]

theorem spans_optional {d : Char} : Spans {} (Pattern.optional (.lit d)) before s after ↔ s = [] ∨ s = [d] := by
  refine within_sign_iff.trans ?_
  cases s with
  | nil => simp
  | cons c s => cases s <;> simp [sameChar, @eq_comm _ d]

theorem isUsername_iff (s : Chars) : isUsername s ↔ ∃ w, (s = w ∨ s = w ++ ['\n']) ∧ IsUsername w := by
  refine startsAt_whole_iff rfl (fun w after => ?_) s
  rw [signsAnd, spans_times_letters holdsAny_digits]
  simp [IsUsername]

theorem isEmail_iff (s : Chars) : isEmail s ↔ ∃ w, (s = w ∨ s = w ++ ['\n']) ∧ IsEmail w := by
  refine startsAt_whole_iff rfl (fun w after => ?_) s
  constructor
  · rintro ⟨box, _, rfl, hbox, _, _, rfl, hat, host, _, rfl, hhost, _, top, rfl, hdot, htop⟩
    obtain rfl := (spans_chars (w := ['@'])).mp hat
    obtain rfl := (spans_chars (w := ['.'])).mp hdot
    exact ⟨box, host, top, rfl, spans_signs.mp hbox, spans_signs.mp hhost, spans_letters.mp htop⟩
  · rintro ⟨box, host, top, rfl, hbox, hhost, htop⟩
    exact ⟨box, _, rfl, spans_signs.mpr hbox, ['@'], _, rfl, (spans_chars (w := ['@'])).mpr rfl,
      host, _, rfl, spans_signs.mpr hhost, ['.'], top, rfl, (spans_chars (w := ['.'])).mpr rfl,
      spans_letters.mpr htop⟩

theorem isPhone_iff (s : Chars) : isPhone s ↔ ∃ w, (s = w ∨ s = w ++ ['\n']) ∧ IsPhone w := by
  have hdigits {before s after : Chars} :
      Spans {} (.times 9 (some 15) true Pattern.digit) before s after ↔
        9 ≤ s.length ∧ s.length ≤ 15 ∧ ∀ c ∈ s, isDecimalDigit c := by
    refine within_sign_iff.trans ?_
    simp [holdsAny, CharItem.holds]
  refine startsAt_whole_iff rfl (fun w after => ?_) s
  constructor
  · rintro ⟨plus, _, rfl, hplus, one, number, rfl, hone, hnumber⟩
    exact ⟨plus, one, number, rfl, spans_optional.mp hplus, spans_optional.mp hone, hdigits.mp hnumber⟩
  · rintro ⟨plus, one, number, rfl, hplus, hone, hnumber⟩
    exact ⟨plus, _, rfl, spans_optional.mpr hplus, one, number, rfl, spans_optional.mpr hone, hdigits.mpr hnumber⟩

def OnFirstLine (items : List CharItem) (s : Chars) : Prop :=
  ∃ x c rest, s = x ++ c :: rest ∧ '\n' ∉ x ∧ holdsAny {} items c

theorem onFirstLine_iff : (∃ t rest, s = t ++ rest ∧
    Spans {} (Pattern.all [many .any, .set false items]) [] t rest) ↔ OnFirstLine items s := by
  constructor
  · rintro ⟨_, rest, rfl, x, _, rfl, hx, c, rfl, hc⟩
    exact ⟨x, c, rest, by simp, fun h => by simpa using (within_sign_iff.mp hx).2.2 _ h, by simpa using hc⟩
  · rintro ⟨x, c, rest, rfl, hx, hc⟩
    refine ⟨x ++ [c], rest, by simp, x, [c], rfl, within_sign_iff.mpr ⟨Nat.zero_le _, by simp, ?_⟩, c, rfl, by simpa⟩
    intro d hd
    simpa using ne_of_mem_of_not_mem hd hx

theorem onFirstLine_word {w : Chars} (hw : '\n' ∉ w) (hitems : holdsAny {} items '\n' = false)
    (hs : s = w ∨ s = w ++ ['\n']) : OnFirstLine items s ↔ ∃ c ∈ w, holdsAny {} items c := by
  constructor
  · rintro ⟨x, c, rest, hx, -, hc⟩
    have hmem : c ∈ w ++ ['\n'] := by
      obtain rfl | rfl := hs <;> simp_all
    obtain hcw | hcn := mem_append.mp hmem
    · exact ⟨c, hcw, hc⟩
    · rw [mem_singleton.mp hcn, hitems] at hc
      cases hc
  · rintro ⟨c, hc, hitem⟩
    obtain ⟨x, rest, rfl⟩ := append_of_mem hc
    have hx : '\n' ∉ x := fun h => hw (by simp [h])
    obtain rfl | rfl := hs
    · exact ⟨x, c, rest, rfl, hx, hitem⟩
    · exact ⟨x, c, rest ++ ['\n'], by simp, hx, hitem⟩

theorem isPassword_iff (s : Chars) : isPassword s ↔ ∃ w, (s = w ∨ s = w ++ ['\n']) ∧ IsPassword w := by
  have hword (groups : List (Nat × Chars)) :
      (run {} (.seq (.times 8 none true (lettersAnd [.digit] passwordMarks)) .textEnd)
        { Cursor.start s with groups } .some).isSome ↔
      ∃ w, (s = w ∨ s = w ++ ['\n']) ∧ 8 ≤ w.length ∧ MadeOf isDecimalDigit passwordMarks w := by
    refine run_textEnd_isSome_iff (c := { Cursor.start s with groups }) rfl fun w after => ?_
    rw [spans_times_letters (f := isDecimalDigit) fun c => by simp [holdsAny, CharItem.holds]]
    simp
  refine (run_ahead_isSome_iff (c := .start s) rfl
    (run_ahead_isSome_iff rfl (run_ahead_isSome_iff rfl hword)) []).trans ?_
  -- The signs looked for are none of them a line feed, so they stand in the word itself.
  have hparts {w : Chars} (hs : s = w ∨ s = w ++ ['\n']) (hw : MadeOf isDecimalDigit passwordMarks w) :
      (OnFirstLine basicLetters s ↔ ∃ c ∈ w, c.isAlpha) ∧ (OnFirstLine [.digit] s ↔ ∃ c ∈ w, isDecimalDigit c) ∧
      (OnFirstLine (passwordMarks.toList.map .one) s ↔ ∃ c ∈ w, c ∈ passwordMarks.toList) := by
    have hbreak : '\n' ∉ w := fun h => absurd (hw '\n' h) (by decide)
    rw [onFirstLine_word hbreak (by decide) hs, onFirstLine_word hbreak (by decide) hs,
      onFirstLine_word hbreak (by decide) hs]
    simp only [holdsAny_letters]
    simp [holdsAny, CharItem.holds]
  simp only [Cursor.start, onFirstLine_iff]
  constructor
  · rintro ⟨hletter, hdigit, hmark, w, hs, hlen, hw⟩
    obtain ⟨hl, hd, hm⟩ := hparts hs hw
    exact ⟨w, hs, hlen, hw, hl.mp hletter, hd.mp hdigit, hm.mp hmark⟩
  · rintro ⟨w, hs, hlen, hw, hletter, hdigit, hmark⟩
    obtain ⟨hl, hd, hm⟩ := hparts hs hw
    exact ⟨hl.mpr hletter, hd.mpr hdigit, hm.mpr hmark, w, hs, hlen, hw⟩

/-- Each check accepts the texts of its grammar and those followed by a line feed. -/
theorem accepted_iff (s : List Char) :
    (isUsername s ↔ ∃ w, (s = w ∨ s = w ++ ['\n']) ∧ IsUsername w) ∧
    (isEmail s ↔ ∃ w, (s = w ∨ s = w ++ ['\n']) ∧ IsEmail w) ∧
    (isPhone s ↔ ∃ w, (s = w ∨ s = w ++ ['\n']) ∧ IsPhone w) ∧
    (isPassword s ↔ ∃ w, (s = w ∨ s = w ++ ['\n']) ∧ IsPassword w) :=
  ⟨isUsername_iff s, isEmail_iff s, isPhone_iff s, isPassword_iff s⟩

/-- A name with a line feed after it is accepted. -/
theorem broken_name_accepted : ∃ s, isUsername s ∧ ¬IsUsername s :=
  ⟨['a', 'b', 'c', '\n'], by decide, fun h => absurd (h.2.2 '\n' (by simp)) (by decide)⟩

end CodeAudit.Guard

/-! Texts that slip through the checks of a form: letters are written in the other case, and lines
broken at blanks. -/

namespace CodeAudit

section Letters

variable {c : Char}

theorem basic_or_fixed (c : Char) : c.toNat < 128 ∨ c.toLower = c ∧ c.toUpper = c := by
  refine or_iff_not_imp_left.mpr fun h => ⟨dif_neg fun hc => h ?_, dif_neg fun hc => h ?_⟩
  all_goals exact Nat.lt_of_le_of_lt (UInt32.le_iff_toNat_le.mp hc.2) (by decide)

theorem of_basic {P : Char → Prop} (h : ∀ n < 128, P (Char.ofNat n)) (hfixed : c.toLower = c → c.toUpper = c → P c) :
    P c := by
  rcases basic_or_fixed c with hc | ⟨hl, hu⟩
  · exact Char.ofNat_toNat c ▸ h c.toNat hc
  · exact hfixed hl hu

theorem toUpper_toUpper : c.toUpper.toUpper = c.toUpper :=
  of_basic (P := fun c => c.toUpper.toUpper = c.toUpper) (by decide) fun _ hu => by rw [hu, hu]

theorem toLower_toUpper : c.toUpper.toLower = c.toLower :=
  of_basic (P := fun c => c.toUpper.toLower = c.toLower) (by decide) fun _ hu => by rw [hu]

theorem isWordChar_toLower : isWordChar c.toLower = isWordChar c :=
  of_basic (P := fun c => isWordChar c.toLower = isWordChar c) (by decide) fun hl _ => by rw [hl]

def caseFree : Chars := ['.', '~', '\n', ' ']

theorem eq_of_caseFree {k : Char} (hk : k ∈ caseFree) (h : c.toLower = k ∨ c.toUpper = k) : c = k := by
  have hall := of_basic (c := c) (P := fun c => (caseFree.all fun k => (c.toLower = k ∨ c.toUpper = k) → c = k))
    (by decide) fun hl hu => by simp [hl, hu]
  exact of_decide_eq_true (List.all_eq_true.mp hall k hk) h

theorem map_eq_of_caseFree {f : Char → Char} (hf : f = Char.toLower ∨ f = Char.toUpper) {l w : Chars}
    (h : l.map f = w) (hw : w ⊆ caseFree) : l = w := by
  have hfixed (c : Char) (hc : c ∈ l) : f c = id c :=
    (eq_of_caseFree (hw (h ▸ List.mem_map_of_mem hc)) (by rcases hf with rfl | rfl <;> simp)).symm
  rw [← h, List.map_congr_left hfixed, List.map_id]

theorem sameChar_toLower {d : Char} (hd : d.toNat < 128) :
    Pattern.sameChar { ignoreCase := true } d c.toLower = Pattern.sameChar { ignoreCase := true } d c := by
  rcases basic_or_fixed c with hc | ⟨hl, -⟩
  · have hlower : c.toLower.toNat < 128 ∧ c.toLower.toLower = c.toLower :=
      of_basic (P := fun c => c.toNat < 128 → c.toLower.toNat < 128 ∧ c.toLower.toLower = c.toLower) (by decide)
        (fun hl _ hc => by rw [hl]; exact ⟨hc, hl⟩) hc
    simp [Pattern.sameChar, hd, hc, hlower]
  · rw [hl]

end Letters

namespace Pattern

open List

abbrev caseless : PatternFlags := { ignoreCase := true }

def isLineForm : Pattern → Bool
  | .empty | .any | .boundary => true
  | .lit d => d.toNat < 128 && d != '\n'
  | .seq p q | .alt p q => p.isLineForm && q.isLineForm
  | .times _ _ _ p => p.isLineForm
  | _ => false

/-- A kind of part that lies on one line, and is told by its letters without their case and by the
words beside it. -/
def OnLine (part : Part) : Prop := ∀ {before s after}, part before s after → '\n' ∉ s ∧
  ∀ {before' s' after'}, s.map Char.toLower = s'.map Char.toLower → side caseless before = side caseless before' →
    side caseless after = side caseless after' → part before' s' after'

variable {part other : Part}

theorem side_append_congr {s s' t t' : Chars} (hs : s.map Char.toLower = s'.map Char.toLower)
    (ht : side caseless t = side caseless t') : side caseless (s ++ t) = side caseless (s' ++ t') := by
  cases s with
  | nil =>
    obtain rfl : s' = [] := by simpa using hs.symm
    exact ht
  | cons c s =>
    obtain ⟨d, s', rfl, hcd, -⟩ := map_eq_cons_iff.mp hs.symm
    have hword : isWordChar c = isWordChar d := by rw [← isWordChar_toLower, ← hcd, isWordChar_toLower]
    simp [side, CharItem.holds, hword]

theorem OnLine.seq (h : OnLine part) (h' : OnLine other) : OnLine fun before s after =>
    ∃ x y, s = x ++ y ∧ part before x (y ++ after) ∧ other (x.reverse ++ before) y after := by
  rintro before _ after ⟨x, y, rfl, hx, hy⟩
  refine ⟨by simp [(h hx).1, (h' hy).1], fun {before' s' after'} hs hb ha => ?_⟩
  rw [map_append] at hs
  obtain ⟨x', y', rfl, hx', hy'⟩ := map_eq_append_iff.mp hs.symm
  refine ⟨x', y', rfl, (h hx).2 hx'.symm hb (side_append_congr hy'.symm ha), (h' hy).2 hy'.symm ?_ ha⟩
  exact side_append_congr (by simp [hx']) hb

theorem onLine_empty : OnLine fun _ s _ => s = [] := by
  rintro _ _ _ rfl
  exact ⟨by simp, fun hs _ _ => by simpa using hs.symm⟩

theorem OnLine.within (h : OnLine part) (least : Nat) (most : Option Nat) : OnLine (Within part least most) := by
  have hrep (n : Nat) : OnLine (Repeated part n) := by
    induction n with
    | zero => exact onLine_empty
    | succ n ih => exact h.seq ih
  rintro before s after ⟨n, hn, hm, hs⟩
  exact ⟨(hrep n hs).1, fun hs' hb ha => ⟨n, hn, hm, (hrep n hs).2 hs' hb ha⟩⟩

theorem onLine_sign {test : Char → Bool} (hbreak : test '\n' = false) (htest : ∀ c, test c.toLower = test c) :
    OnLine fun _ s _ => ∃ c, s = [c] ∧ test c := by
  rintro _ _ _ ⟨c, rfl, hc⟩
  refine ⟨by simpa using fun h => by simp [← h, hbreak] at hc, fun hs _ _ => ?_⟩
  obtain ⟨d, s', rfl, hcd, hnil⟩ := map_eq_cons_iff.mp hs.symm
  obtain rfl : s' = [] := by simpa using hnil
  exact ⟨d, rfl, by rw [← htest, hcd, htest, hc]⟩

theorem onLine_spans {p : Pattern} (h : p.isLineForm) : OnLine (Spans caseless p) := by
  induction p with
  | empty => exact onLine_empty
  | lit d =>
    simp only [isLineForm, Bool.and_eq_true, decide_eq_true_eq, bne_iff_ne] at h
    refine onLine_sign (Bool.eq_false_iff.mpr fun hd => h.2 ?_) fun c => sameChar_toLower h.1
    exact eq_of_caseFree (by decide) (.inl (by simpa [sameChar, h.1] using hd))
  | any =>
    refine onLine_sign rfl fun c => ?_
    have hbreak : c.toLower = '\n' ↔ c = '\n' :=
      ⟨fun h => eq_of_caseFree (by decide) (.inl h), fun h => by rw [h]; rfl⟩
    rw [Bool.eq_iff_iff]
    simp [hbreak]
  | seq p q ihp ihq =>
    obtain ⟨hp, hq⟩ := Bool.and_eq_true_iff.mp h
    exact OnLine.seq (ihp hp) (ihq hq)
  | alt p q ihp ihq =>
    obtain ⟨hp, hq⟩ := Bool.and_eq_true_iff.mp h
    rintro before s after (hs | hs)
    · exact ⟨(ihp hp hs).1, fun h hb ha => .inl ((ihp hp hs).2 h hb ha)⟩
    · exact ⟨(ihq hq hs).1, fun h hb ha => .inr ((ihq hq hs).2 h hb ha)⟩
  | times least most greedy p ih => exact OnLine.within (ih h) least most
  | boundary =>
    rintro before _ after ⟨rfl, hne⟩
    exact ⟨by simp, fun hs hb ha => ⟨by simpa using hs.symm, hb ▸ ha ▸ hne⟩⟩
  | _ => cases h

end Pattern

namespace Guard

open List Pattern

/-- Letters are written in either case, and blanks may become ends of lines. -/
def Evades (s t : Chars) : Prop := Forall₂ (fun c d => c.toLower = d.toLower ∨ c = ' ' ∧ d = '\n') s t

section Evades

variable {s t x y : Chars}

theorem Evades.split (h : Evades (x ++ y) t) : ∃ x' y', t = x' ++ y' ∧ Evades x x' ∧ Evades y y' :=
  ⟨t.take x.length, t.drop x.length, (take_append_drop ..).symm, by simpa [Evades] using forall₂_take x.length h,
    by simpa [Evades] using forall₂_drop x.length h⟩

theorem Evades.lower (h : Evades s t) (hs : ' ' ∉ s) : s.map Char.toLower = t.map Char.toLower := by
  induction h with
  | nil => rfl
  | cons hcd _ ih =>
    rw [mem_cons, not_or] at hs
    rw [map_cons, map_cons, ih hs.2, hcd.resolve_right fun h => hs.1 h.1.symm]

theorem Evades.head (h : Evades s t) (hs : ∀ c ∈ s.head?, c = ' ') : ∀ c ∈ t.head?, c = ' ' ∨ c = '\n' := by
  cases h with
  | nil => simp
  | @cons c d _ _ hcd _ =>
    obtain rfl := hs c rfl
    rintro _ ⟨⟩
    exact hcd.imp (fun h => eq_of_caseFree (by decide) (.inl h.symm)) And.right

theorem evades_map {f : Char → Char} (hf : ∀ c, c.toLower = (f c).toLower ∨ c = ' ' ∧ f c = '\n') (s : Chars) :
    Evades s (s.map f) := forall₂_map_right_iff.mpr (forall₂_same.mpr fun c _ => hf c)

theorem evades_toUpper (s : Chars) : Evades s (s.map Char.toUpper) :=
  evades_map (fun _ => .inl toLower_toUpper.symm) s

end Evades

section Queries

def Rejected (s : Chars) : Prop := ∃ p ∈ queryForms, ∃ before part after,
  s = before ++ (part ++ after) ∧ Spans caseless p before.reverse part after

theorem queryForms_onLine : ∀ p ∈ queryForms, p.isPlain ∧ p.isLineForm := by decide

theorem rejected_iff (s : Chars) : freeOfQueries (String.ofList s) = false ↔ Rejected s := by
  simp only [freeOfQueries, Bool.not_eq_false', any_eq_true]
  refine exists_congr fun p => and_congr_right fun hp => ?_
  rw [occurs_iff (queryForms_onLine p hp).1, String.toList_ofList]

variable {s t before piece after : Chars}

theorem rejected_around (h : Rejected s) (hlow : s.map Char.toLower = piece.map Char.toLower)
    (hbefore : side caseless before.reverse = false) (hafter : side caseless after = false) :
    Rejected (before ++ (piece ++ after)) := by
  obtain ⟨p, hp, b, part, a, rfl, hspans⟩ := h
  rw [map_append, map_append] at hlow
  obtain ⟨b', r, rfl, hb, hr⟩ := map_eq_append_iff.mp hlow.symm
  obtain ⟨part', a', rfl, hpart, ha⟩ := map_eq_append_iff.mp hr
  refine ⟨p, hp, before ++ b', part', a' ++ after, by simp,
    (onLine_spans (queryForms_onLine p hp).2 hspans).2 hpart.symm ?_ ?_⟩
  · have hrev : b.reverse.map Char.toLower = b'.reverse.map Char.toLower := by simp [hb]
    simpa using side_append_congr (t := []) hrev hbefore.symm
  · simpa using side_append_congr (t := []) ha.symm hafter.symm

def IsPiece (piece s : Chars) : Prop := ∃ before after, s = before ++ (piece ++ after) ∧ ' ' ∉ piece ∧
  (∀ c ∈ before.getLast?, c = ' ') ∧ ∀ c ∈ after.head?, c = ' '

theorem rejected_of_piece (hpiece : IsPiece piece s) (h : Rejected piece) (ht : Evades s t) : Rejected t := by
  obtain ⟨before, after, rfl, hspace, hbefore, hafter⟩ := hpiece
  obtain ⟨before', r, rfl, hb, hr⟩ := ht.split
  obtain ⟨piece', after', rfl, hp, ha⟩ := hr.split
  refine rejected_around h (hp.lower hspace) (side_eq_false ?_) (side_eq_false (ha.head hafter))
  exact Evades.head (rel_reverse hb) (by simpa using hbefore)

def broken (c : Char) : Char := if c = ' ' then '\n' else c

theorem exists_line (l : Chars) : ∃ x y, l = x ++ y ∧ ' ' ∉ x ∧ (∀ c ∈ y.head?, c = ' ') ∧
    side caseless (l.map broken) = side caseless x := by
  induction l with
  | nil => exact ⟨[], [], rfl, by simp, by simp, rfl⟩
  | cons c l ih =>
    by_cases hc : c = ' '
    · exact ⟨[], c :: l, rfl, by simp, by simp [hc], side_eq_false (by simp [broken, hc])⟩
    · obtain ⟨x, y, rfl, hx, hy, -⟩ := ih
      exact ⟨c :: x, y, rfl, by simp [hx, Ne.symm hc], hy, by simp [side, broken, hc]⟩

theorem exists_piece (h : Rejected (s.map broken)) : ∃ piece, IsPiece piece s ∧ Rejected piece := by
  obtain ⟨p, hp, b, part, a, hs, hspans⟩ := h
  obtain ⟨b', r, rfl, rfl, hr⟩ := map_eq_append_iff.mp hs
  obtain ⟨part', a', rfl, rfl, rfl⟩ := map_eq_append_iff.mp hr
  obtain ⟨hbreak, halike⟩ := onLine_spans (queryForms_onLine p hp).2 hspans
  have hspace : ' ' ∉ part' := fun h => hbreak (mem_map.mpr ⟨' ', h, rfl⟩)
  have hpart : part'.map broken = part' :=
    (map_congr_left (g := id) fun c hc => if_neg (ne_of_mem_of_not_mem hc hspace)).trans (map_id _)
  obtain ⟨xb, yb, hb, hxb, hyb, hsideb⟩ := exists_line b'.reverse
  obtain ⟨xa, ya, rfl, hxa, hya, hsidea⟩ := exists_line a'
  obtain rfl : b' = yb.reverse ++ xb.reverse := by rw [← reverse_append, ← hb, reverse_reverse]
  refine ⟨xb.reverse ++ (part' ++ xa), ⟨yb.reverse, ya, by simp, by simp [hxb, hspace, hxa], by simpa using hyb, hya⟩,
    p, hp, xb.reverse, part', xa, rfl, halike (by rw [hpart]) ?_ hsidea⟩
  rw [← map_reverse, hsideb, reverse_reverse]

end Queries

def hasSmall (s : Chars) : Bool := s.any fun c => c.toUpper != c

theorem hasSmall_capitals {s part : Chars} (h : part ⊆ s.map Char.toUpper) : hasSmall part = false := by
  refine any_eq_false.mpr fun c hc => ?_
  obtain ⟨d, -, rfl⟩ := mem_map.mp (h hc)
  rw [toUpper_toUpper]
  simp

theorem hasSmall_of_script {p : Pattern} (hp : p ∈ scriptForms) {before part after : Chars}
    (h : Spans {} p before part after) : hasSmall part := by
  rcases mem_cons.mp hp with rfl | hp
  · obtain ⟨x, y, rfl, hx, -⟩ := h
    obtain rfl := spans_chars.mp hx
    exact any_append.trans (Bool.or_eq_true_iff.mpr (.inl (by decide)))
  · obtain ⟨w, hw, rfl⟩ := mem_map.mp hp
    obtain rfl := spans_chars.mp h
    exact (by decide : ∀ w ∈ _, hasSmall w.toList) w hw

theorem capitals_free (s : Chars) : freeOfScripts (String.ofList (s.map Char.toUpper)) := by
  have hplain : ∀ p ∈ scriptForms, p.isPlain := by decide
  rw [freeOfScripts, Bool.not_eq_true', any_eq_false]
  intro p hp hocc
  obtain ⟨before, part, after, hs, hspans⟩ := (occurs_iff (hplain p hp) _).mp hocc
  rw [String.toList_ofList] at hs
  have hpart : part ⊆ s.map Char.toUpper := by
    rw [hs]
    exact fun c hc => mem_append_right _ (mem_append_left _ hc)
  exact absurd ((hasSmall_of_script hp hspans).symm.trans (hasSmall_capitals hpart)) (by simp)

theorem steps_evaded_iff (s : Chars) : (∀ t, Evades s t → freeOfSteps (String.ofList t) = false) ↔
    ∃ w ∈ ["..", "~"], w.toList <:+: s := by
  have hiff (t : Chars) : freeOfSteps (String.ofList t) = false ↔ ∃ w ∈ stepForms, w.toList <:+: t := by
    simp [freeOfSteps, Text.occurs, Chars.occurs_iff]
  have hforms : ∀ w ∈ ["..", "~"], w ∈ stepForms ∧ ' ' ∉ w.toList ∧ w.toList.map Char.toLower = w.toList := by decide
  have hfree : ∀ w ∈ ["..", "~"], w.toList ⊆ caseFree := by simp [caseFree]
  constructor
  · intro h
    obtain ⟨w, hw, hin⟩ := (hiff _).mp (h _ (evades_toUpper s))
    have hsmall : ∀ w ∈ stepForms, w ∈ ["..", "~"] ∨ hasSmall w.toList := by decide
    rcases hsmall w hw with hmark | hsmall
    · obtain ⟨l, hl, hmap⟩ := infix_map_iff.mp hin
      exact ⟨w, hmark, map_eq_of_caseFree (.inr rfl) hmap.symm (hfree w hmark) ▸ hl⟩
    · rw [hasSmall_capitals hin.subset] at hsmall
      cases hsmall
  · rintro ⟨w, hw, x, y, rfl⟩ t ht
    obtain ⟨r, y', rfl, hr, -⟩ := ht.split
    obtain ⟨x', w', rfl, -, hw'⟩ := hr.split
    obtain ⟨hstep, hspace, hlow⟩ := hforms w hw
    obtain rfl := map_eq_of_caseFree (.inl rfl) ((hw'.lower hspace).symm.trans hlow) (hfree w hw)
    exact (hiff _).mpr ⟨w, hstep, x', y', rfl⟩

/-- What is still rejected of a text whose letters change their case and whose blanks become ends of
lines: as a query, what is rejected of one piece between blanks, and all if only letters change; as
a script, nothing; as a path, what does not depend on letters. -/
theorem rejected_when_evaded (s : List Char) :
    (freeOfQueries (String.ofList s) = false → ∀ t, s.map Char.toLower = t.map Char.toLower →
      freeOfQueries (String.ofList t) = false) ∧
    ((∀ t, Evades s t → freeOfQueries (String.ofList t) = false) ↔
      ∃ piece, IsPiece piece s ∧ freeOfQueries (String.ofList piece) = false) ∧
    (∃ t, Evades s t ∧ freeOfScripts (String.ofList t) = true) ∧
    ((∀ t, Evades s t → freeOfSteps (String.ofList t) = false) ↔
      ∃ w ∈ ["..", "~"], w.toList <:+: s) := by
  simp only [rejected_iff]
  refine ⟨fun h t ht => ?_, ⟨fun h => exists_piece (h _ (evades_map (fun c => ?_) s)), ?_⟩,
    ⟨_, evades_toUpper s, capitals_free s⟩, steps_evaded_iff s⟩
  · have hwhole : Rejected ([] ++ (t ++ [])) := rejected_around h ht rfl rfl
    simpa using hwhole
  · by_cases hc : c = ' ' <;> simp [broken, hc]
  · rintro ⟨piece, hpiece, h⟩ t ht
    exact rejected_of_piece hpiece h ht

/-- A script in capitals is accepted. -/
theorem capital_script_accepted : ∃ s t, freeOfScripts (String.ofList s) = false ∧ Evades s t ∧
    freeOfScripts (String.ofList t) = true :=
  ⟨"javascript:alert(1)".toList, _, by decide, evades_toUpper _, by decide⟩

end Guard

end CodeAudit

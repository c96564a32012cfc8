import CodeAudit.Proofs.Dictionary
import CodeAudit.Proofs.NumberText

/-! What is written as JSON is read back as it was, if keys are texts that differ and the limits of
the reader are kept, in every layout that does not sort keys. -/

namespace CodeAudit.Json

open Nat List

theorem hexValue?_digitChar : ∀ n < 16, hexValue? n.digitChar = some n := by decide

variable {n : Nat} {rest : Chars}

theorem hexText_four (h : n < 0x10000) :
    (hexText 4 n).toList = [(n / 16 / 16 / 16).digitChar, (n / 16 / 16 % 16).digitChar,
      (n / 16 % 16).digitChar, (n % 16).digitChar] := by
  have htext : (hexText 4 n).toList = paddedDigits 16 4 n := by simp [hexText, Text.padLeft, paddedDigits]
  rw [htext, paddedDigits_succ (by decide) (by decide), paddedDigits_succ (by decide) (by decide),
    paddedDigits_succ (by decide) (by decide), paddedDigits_one (by omega)]
  rfl

theorem hexQuad_hexText (h : n < 0x10000) (hne : rest ≠ []) :
    hexQuad ((hexText 4 n).toList ++ rest) = some (n, rest) := by
  obtain ⟨c, rest, rfl⟩ := exists_cons_of_ne_nil hne
  rw [hexText_four h]
  simp only [cons_append, nil_append, hexQuad, hexValue?_digitChar _ (show n / 16 / 16 / 16 < 16 by omega),
    hexValue?_digitChar _ (mod_lt _ (show 0 < 16 by decide)), Option.bind_eq_bind, Option.bind_some,
    Option.pure_def, Option.some.injEq, Prod.mk.injEq, and_true]
  omega

theorem toNat_valid (c : Char) : c.toNat < 0xD800 ∨ 0xDFFF < c.toNat ∧ c.toNat < 0x110000 := c.valid

variable {c : Char}

theorem joinUnits_of_char (h : c.toNat < 0x10000) (rest : Chars) : joinUnits c.toNat rest = (c, rest) := by
  have hvalid := toNat_valid c
  unfold joinUnits
  rw [if_neg (by omega), if_neg (by omega), Char.ofNat_toNat]

theorem joinUnits_pair (h : 0x10000 ≤ c.toNat) (hne : rest ≠ []) : highUnit c < 0x10000 ∧
      joinUnits (highUnit c) ('\\' :: 'u' :: ((hexText 4 (lowUnit c)).toList ++ rest)) = (c, rest) := by
  have hvalid := toNat_valid c
  have hhigh : 0xD800 ≤ highUnit c ∧ highUnit c < 0xDC00 := by unfold highUnit; omega
  have hlow : 0xDC00 ≤ lowUnit c ∧ lowUnit c < 0xE000 := by unfold lowUnit; omega
  have hcode : 0x10000 + (highUnit c - 0xD800) * 0x400 + (lowUnit c - 0xDC00) = c.toNat := by
    unfold highUnit lowUnit
    omega
  refine ⟨by omega, ?_⟩
  unfold joinUnits
  rw [if_pos hhigh]
  simp only [hexQuad_hexText (show lowUnit c < 0x10000 by omega) hne]
  rw [if_pos hlow, hcode, Char.ofNat_toNat]

theorem stringBody_unit (start fuel : Nat) (acc : Chars) (hn : n < 0x10000)
    (hne : rest ≠ []) : stringBody start (fuel + 1) acc ('\\' :: 'u' :: ((hexText 4 n).toList ++ rest)) =
      stringBody start fuel ((joinUnits n rest).1 :: acc) (joinUnits n rest).2 := by
  rw [stringBody]
  simp only [hexQuad_hexText hn hne]

theorem escape_toList (a : String) : ("\\u" ++ a).toList = '\\' :: 'u' :: a.toList := by simp

theorem escape_pair_toList (a b : String) :
    ("\\u" ++ a ++ "\\u" ++ b).toList = '\\' :: 'u' :: (a.toList ++ '\\' :: 'u' :: b.toList) := by simp

theorem unitEscape_toList (h : c.toNat < 0x10000) :
    (unitEscape c).toList = '\\' :: 'u' :: (hexText 4 c.toNat).toList := by
  rw [unitEscape, if_pos h]
  exact escape_toList _

theorem unitEscape_pair_toList (h : ¬ c.toNat < 0x10000) : (unitEscape c).toList =
      '\\' :: 'u' :: ((hexText 4 (highUnit c)).toList ++ '\\' :: 'u' :: (hexText 4 (lowUnit c)).toList) := by
  rw [unitEscape, if_neg h]
  exact escape_pair_toList _ _

theorem stringBody_unitEscape (start fuel : Nat) (acc : Chars) (c : Char) (hne : rest ≠ []) :
    stringBody start (fuel + 1) acc ((unitEscape c).toList ++ rest) = stringBody start fuel (c :: acc) rest := by
  by_cases h : c.toNat < 0x10000
  · rw [unitEscape_toList h, cons_append, cons_append, stringBody_unit start fuel acc h hne,
      joinUnits_of_char h]
  · obtain ⟨hhigh, hpair⟩ := joinUnits_pair (Nat.le_of_not_lt h) hne
    rw [unitEscape_pair_toList h, cons_append, cons_append, append_assoc, cons_append,
      cons_append, stringBody_unit start fuel acc hhigh (cons_ne_nil _ _), hpair]

variable (ascii : Bool)

theorem charText_cases (c : Char) : (∃ e, e ≠ 'u' ∧ escapeChar? e = some c ∧ (charText ascii c).toList = ['\\', e]) ∨
      charText ascii c = unitEscape c ∨ (c ≠ '"' ∧ c ≠ '\\' ∧ 32 ≤ c.toNat) ∧ charText ascii c = c.toString := by
  by_cases hshort : c = '"' ∨ c = '\\' ∨ c = '\n' ∨ c = '\r' ∨ c = '\t' ∨ c = '\x0c' ∨ c = '\x08'
  · refine .inl ?_
    rcases hshort with rfl | rfl | rfl | rfl | rfl | rfl | rfl
    · exact ⟨'"', by decide, rfl, by simp [charText]⟩
    · exact ⟨'\\', by decide, rfl, by simp [charText]⟩
    · exact ⟨'n', by decide, rfl, by simp [charText]⟩
    · exact ⟨'r', by decide, rfl, by simp [charText]⟩
    · exact ⟨'t', by decide, rfl, by simp [charText]⟩
    · exact ⟨'f', by decide, rfl, by simp [charText]⟩
    · exact ⟨'b', by decide, rfl, by simp [charText]⟩
  simp only [not_or] at hshort
  obtain ⟨hquote, hslash, hn, hr, ht, hf, hb⟩ := hshort
  simp only [charText, hquote, hslash, hn, hr, ht, hf, hb, if_false]
  by_cases hlow : c.toNat < 32
  · exact .inr (.inl (if_pos hlow))
  rw [if_neg hlow]
  by_cases hhigh : ascii && 126 < c.toNat
  · exact .inr (.inl (if_pos hhigh))
  · exact .inr (.inr ⟨⟨hquote, hslash, not_lt.mp hlow⟩, if_neg hhigh⟩)

theorem stringBody_charText (start fuel : Nat) (acc : Chars) (c : Char) (hne : rest ≠ []) :
    stringBody start (fuel + 1) acc ((charText ascii c).toList ++ rest) = stringBody start fuel (c :: acc) rest := by
  rcases charText_cases ascii c with ⟨e, hu, he, htext⟩ | htext | ⟨⟨hquote, hslash, hlow⟩, htext⟩
  · rw [htext]
    simp [stringBody, he]
  · rw [htext]
    exact stringBody_unitEscape start fuel acc c hne
  · rw [htext]
    simp [stringBody, not_lt.mpr hlow]

theorem stringBody_text (start : Nat) (cs acc rest : Chars) {fuel : Nat} (hfuel : cs.length < fuel) :
    stringBody start fuel acc (cs.flatMap (fun c => (charText ascii c).toList) ++ '"' :: rest) =
      .ok (String.ofList (acc.reverse ++ cs), rest) := by
  induction cs generalizing acc fuel with
  | nil =>
    obtain ⟨fuel, rfl⟩ := exists_eq_succ_of_ne_zero (ne_of_gt hfuel)
    simp [stringBody]
  | cons c cs ih =>
    obtain ⟨fuel, rfl⟩ := exists_eq_succ_of_ne_zero (ne_of_gt (zero_lt_of_lt hfuel))
    rw [flatMap_cons, append_assoc, stringBody_charText _ _ _ _ _ (by simp), ih _ (by simpa using hfuel)]
    simp

theorem charText_ne_nil (c : Char) : (charText ascii c).toList ≠ [] := by
  have hunit : (unitEscape c).toList ≠ [] := by
    by_cases h : c.toNat < 0x10000
    · rw [unitEscape_toList h]
      exact cons_ne_nil _ _
    · rw [unitEscape_pair_toList h]
      exact cons_ne_nil _ _
  rcases charText_cases ascii c with ⟨e, -, -, htext⟩ | htext | ⟨-, htext⟩
  · rw [htext]
    exact cons_ne_nil _ _
  · rw [htext]
    exact hunit
  · rw [htext]
    simp

theorem stringText_toList (s : String) : (stringText ascii s).toList =
      '"' :: (s.toList.flatMap (fun c => (charText ascii c).toList) ++ ['"']) := by
  simp [stringText, flatMap_map]

theorem length_le_flatMap (cs : Chars) : cs.length ≤ (cs.flatMap fun c => (charText ascii c).toList).length := by
  induction cs with
  | nil => simp
  | cons c cs ih =>
    have := length_pos_iff.mpr (charText_ne_nil ascii c)
    simp only [flatMap_cons, length_append, length_cons]
    omega

theorem stringBody_stringText (s : String) (start : Nat) (rest : Chars) :
    ∃ body, (stringText ascii s).toList ++ rest = '"' :: body ∧
      stringBody start (('"' :: body).length + 1) [] body = .ok (s, rest) := by
  refine ⟨s.toList.flatMap (fun c => (charText ascii c).toList) ++ '"' :: rest, ?_, ?_⟩
  · simp [stringText_toList]
  · have := length_le_flatMap ascii s.toList
    rw [stringBody_text _ _ _ _ _ (by simp only [length_cons, length_append]; omega)]
    simp

theorem signPart_eq (s : Chars) : s = signChars (signPart s).1 ++ (signPart s).2 := by
  unfold signPart
  split <;> rfl

theorem wholePart_head {s whole : Chars} (h : wholePart s = some (whole, rest)) :
    ∃ c body, c.isDigit ∧ s = c :: body := by
  unfold wholePart at h
  split at h
  · exact ⟨'0', _, rfl, rfl⟩
  · dsimp only at h
    split_ifs at h with hempty
    cases s with
    | nil => simp at hempty
    | cons c body =>
      refine ⟨c, body, ?_, rfl⟩
      by_contra hc
      simp [hc] at hempty

variable {r : Except Problem (Value × Chars)} {s : Chars}

theorem number?_head (h : number? s = some r) :
    ∃ negative c body, c.isDigit ∧ s = signChars negative ++ c :: body := by
  unfold number? at h
  have hs := signPart_eq s
  generalize signPart s = p at h hs
  obtain ⟨negative, body⟩ := p
  cases hw : wholePart body with
  | none => simp [hw] at h
  | some parts =>
    obtain ⟨c, body', hc, rfl⟩ := wholePart_head hw
    exact ⟨negative, c, body', hc, hs⟩

theorem scalar_of_number? (h : number? s = some r) : scalar s = r := by
  obtain ⟨negative, c, body, hc, rfl⟩ := number?_head h
  have hne : c ≠ 'n' ∧ c ≠ 't' ∧ c ≠ 'f' ∧ c ≠ 'N' ∧ c ≠ 'I' ∧ c ≠ '-' := by
    refine ⟨?_, ?_, ?_, ?_, ?_, ?_⟩ <;>
      · rintro rfl
        revert hc
        decide
  obtain ⟨h1, h2, h3, h4, h5, h6⟩ := hne
  cases negative with
  | false =>
    change number? (c :: body) = some r at h
    simp [scalar, signChars, wordValues, Chars.afterPrefix, h1.symm, h2.symm, h3.symm, h4.symm, h5.symm, h6.symm, h]
  | true =>
    change number? ('-' :: c :: body) = some r at h
    simp [scalar, signChars, wordValues, Chars.afterPrefix, h5.symm, h]

theorem scalar_floatWord (x : Float) (hrest : Ends rest) :
    scalar ((floatWord x).toList ++ rest) = .ok (.float x, rest) := by
  unfold floatWord
  cases hx : Dyadic.ofFloat? x with
  | some d =>
    rw [not_isNaN_of_ofFloat? hx, not_isInf_of_ofFloat? hx]
    exact scalar_of_number? (number?_floatText hx hrest)
  | none =>
    by_cases hnan : x.isNaN
    · rw [Float.isNaN_eq_decide_eq_nan, decide_eq_true_iff] at hnan
      rw [hnan]
      rfl
    · rw [if_neg hnan]
      have hinf := (isNaN_or_isInf_of_ofFloat?_none hx).resolve_left hnan
      rw [if_pos hinf]
      rcases isInf_cases hinf with rfl | rfl
      · rfl
      · rfl

mutual

/-- The value is made of what JSON has, with keys that differ, whole numbers that are not too long
and at most `levels` values inside one another. -/
def isDocument : Nat → Value → Bool
  | _, .null => true
  | _, .bool _ => true
  | _, .int n => (toDigits 10 n.natAbs).length ≤ maxDigits
  | _, .float _ => true
  | _, .text _ => true
  | levels, .list items => 0 < levels && areDocuments (levels - 1) items
  | levels, .object entries => 0 < levels && (entries.map (·.1)).Nodup && entriesAreDocuments (levels - 1) entries
  | _, .mapping _ => false
  | _, .special _ => false

def areDocuments : Nat → List Value → Bool
  | _, [] => true
  | levels, v :: rest => isDocument levels v && areDocuments levels rest

def entriesAreDocuments : Nat → List (String × Value) → Bool
  | _, [] => true
  | levels, (_, v) :: rest => isDocument levels v && entriesAreDocuments levels rest

end

def AllSpaces (gap : Chars) : Prop := ∀ c ∈ gap, isSpace c = true

theorem skip_gap {gap s : Chars} (hgap : AllSpaces gap) (hs : ∀ c ∈ s.head?, isSpace c = false) :
    skip (gap ++ s) = s := by
  unfold skip
  rw [dropWhile_append_of_pos hgap]
  cases s with
  | nil => rfl
  | cons c s => simp [hs c rfl]

theorem skip_cons (h : isSpace c = false) (s : Chars) : skip (c :: s) = c :: s := by simp [skip, h]

def Style.margin (style : Style) (depth : Nat) : Chars :=
  match style.indent with
  | none => []
  | some width => '\n' :: replicate (width * depth) ' '

def Style.gap (style : Style) (depth : Nat) : Chars :=
  match style.indent with
  | none => [' ']
  | some _ => style.margin depth

variable (style : Style) (depth : Nat)

theorem Style.margin_spaces : AllSpaces (style.margin depth) := by
  intro c hc
  unfold Style.margin at hc
  cases hi : style.indent with
  | none => simp [hi] at hc
  | some width =>
    simp only [hi, mem_cons, mem_replicate] at hc
    rcases hc with rfl | ⟨-, rfl⟩ <;> rfl

theorem Style.gap_spaces : AllSpaces (style.gap depth) := by
  unfold Style.gap
  split
  · simp [AllSpaces, isSpace]
  · exact style.margin_spaces depth

/-- What stands between brackets after the first item: the other items, each after a comma and a
gap, and after a margin the closing bracket. -/
def itemTail (gap last : Chars) : List String → Chars
  | [] => last
  | t :: ts => ',' :: (gap ++ (t.toList ++ itemTail gap last ts))

theorem itemTail_eq (gap last : Chars) (sep : String) (hsep : sep.toList = ',' :: gap) (t : String)
    (ts : List String) : (Text.join sep (t :: ts)).toList ++ last = t.toList ++ itemTail gap last ts := by
  induction ts generalizing t with
  | nil => simp [Text.join, itemTail]
  | cons u ts ih =>
    have hjoin : (Text.join sep (t :: u :: ts)).toList =
        t.toList ++ (sep.toList ++ (Text.join sep (u :: ts)).toList) := by
      simp [Text.join]
    rw [hjoin, append_assoc, append_assoc, ih, hsep]
    rfl

theorem bracket_toList (opening closing t : String) (ts : List String) :
    (bracket style depth opening closing (t :: ts)).toList = opening.toList ++ (style.margin (depth + 1) ++
        (t.toList ++ itemTail (style.gap (depth + 1)) (style.margin depth ++ closing.toList) ts)) := by
  unfold bracket Style.gap Style.margin
  cases style.indent with
  | none =>
    simp only [isEmpty_cons, Bool.false_eq_true, if_false, String.toList_append, append_assoc,
      nil_append]
    rw [itemTail_eq [' '] closing.toList ", " rfl]
  | some width =>
    simp only [isEmpty_cons, Bool.false_eq_true, if_false, String.toList_append, append_assoc]
    rw [itemTail_eq ('\n' :: replicate (width * (depth + 1)) ' ') _ _ (by simp)]
    simp

def Begins (c : Char) : Prop := isSpace c = false ∧ c ≠ ']' ∧ c ≠ '\x7d' ∧ c ≠ Char.ofNat 0xFEFF

instance (c : Char) : Decidable (Begins c) := inferInstanceAs (Decidable (_ ∧ _))

def BeginsScalar (c : Char) : Prop := Begins c ∧ c ≠ '"' ∧ c ≠ '[' ∧ c ≠ '\x7b'

instance (c : Char) : Decidable (BeginsScalar c) := inferInstanceAs (Decidable (_ ∧ _))

theorem beginsScalar_of_digit (h : c.isDigit) : BeginsScalar c := by
  refine ⟨⟨?_, ?_, ?_, ?_⟩, ?_, ?_, ?_⟩
  · by_contra hc
    simp only [isSpace, Bool.not_eq_false, Bool.or_eq_true, beq_iff_eq] at hc
    rcases hc with ((rfl | rfl) | rfl) | rfl <;> revert h <;> decide
  all_goals
    rintro rfl
    revert h
    decide

theorem number?_begins (h : number? s = some r) : ∃ c body, s = c :: body ∧ BeginsScalar c := by
  obtain ⟨negative, c, body, hc, rfl⟩ := number?_head h
  cases negative with
  | false => exact ⟨c, body, rfl, beginsScalar_of_digit hc⟩
  | true => exact ⟨'-', c :: body, rfl, by decide⟩

theorem floatWord_begins (x : Float) : ∃ c body, (floatWord x).toList = c :: body ∧ BeginsScalar c := by
  unfold floatWord
  cases hx : Dyadic.ofFloat? x with
  | some d =>
    rw [not_isNaN_of_ofFloat? hx, not_isInf_of_ofFloat? hx]
    have hends : Ends [] := by simp [Ends]
    simpa using number?_begins (number?_floatText hx hends)
  | none =>
    have hcases := isNaN_or_isInf_of_ofFloat?_none hx
    split_ifs
    · exact ⟨'N', _, rfl, by decide⟩
    · exact ⟨'-', _, rfl, by decide⟩
    · exact ⟨'I', _, rfl, by decide⟩
    · simp_all

theorem intText_begins (n : Int) : ∃ c body, (intText n).toList = c :: body ∧ BeginsScalar c := by
  rw [intText_toList]
  obtain ⟨c, body, hcons⟩ := exists_cons_of_ne_nil (toDigits_ne_nil (b := 10) (n := n.natAbs))
  have hc := allDigits_toDigits n.natAbs c (by simp [hcons])
  rw [hcons]
  cases decide (n < 0) with
  | false => exact ⟨c, body, rfl, beginsScalar_of_digit hc⟩
  | true => exact ⟨'-', c :: body, rfl, by decide⟩

theorem bracket_begins {opening : String}
    (hopening : opening.toList = [c]) (closing : String) (items : List String) :
    ∃ body, (bracket style depth opening closing items).toList = c :: body := by
  cases items with
  | nil => exact ⟨closing.toList, by simp [bracket, hopening]⟩
  | cons t ts => exact ⟨_, by rw [bracket_toList, hopening]; rfl⟩

theorem render_begins (v : Value) {levels : Nat} (h : isDocument levels v) :
    ∃ c body, (render style depth v).toList = c :: body ∧ Begins c := by
  cases v with
  | null => exact ⟨'n', _, by rw [render]; rfl, by decide⟩
  | bool b =>
    cases b with
    | false => exact ⟨'f', _, by rw [render]; rfl, by decide⟩
    | true => exact ⟨'t', _, by rw [render]; rfl, by decide⟩
  | int n =>
    obtain ⟨c, body, htext, hc⟩ := intText_begins n
    exact ⟨c, body, by rw [render, htext], hc.1⟩
  | float x =>
    obtain ⟨c, body, htext, hc⟩ := floatWord_begins x
    exact ⟨c, body, by rw [render, htext], hc.1⟩
  | text s => exact ⟨'"', _, by rw [render, stringText_toList], by decide⟩
  | list items =>
    obtain ⟨body, htext⟩ := bracket_begins style depth (show "[".toList = ['['] from rfl) "]"
      (renderItems style (depth + 1) items)
    exact ⟨'[', body, by rw [render, htext], by decide⟩
  | object entries =>
    rw [render]
    obtain ⟨body, htext⟩ := bracket_begins style depth (show "\x7b".toList = ['\x7b'] from rfl) "\x7d"
      ((if style.sorted then (renderEntries style (depth + 1) entries).mergeSort (fun a b => a.1 ≤ b.1)
        else renderEntries style (depth + 1) entries).map (·.2))
    exact ⟨'\x7b', body, htext, by decide⟩
  | mapping pairs => simp [isDocument] at h
  | special s => simp [isDocument] at h

theorem ends_of_space (hc : isSpace c) (rest : Chars) : Ends (c :: rest) := by
  simp only [isSpace, Bool.or_eq_true, beq_iff_eq] at hc
  rcases hc with ((rfl | rfl) | rfl) | rfl <;> simp [Ends, Char.isDigit]

variable {last : Chars} {gap rest : Chars}

theorem ends_itemTail {closing : Char} (hlast : AllSpaces last)
    (hclosing : Ends (closing :: rest)) (ts : List String) : Ends (itemTail gap (last ++ [closing]) ts ++ rest) := by
  cases ts with
  | nil =>
    cases last with
    | nil => exact hclosing
    | cons c last => exact ends_of_space (hlast c (by simp)) _
  | cons t ts => simp [Ends, itemTail]

theorem skip_closing (hlast : AllSpaces last) (hc : isSpace c = false) :
    skip (itemTail gap (last ++ [c]) [] ++ rest) = c :: rest := by
  rw [itemTail, append_assoc]
  exact skip_gap hlast (by simp [hc])

theorem skip_comma (t : String) (ts : List String) :
    skip (itemTail gap last (t :: ts) ++ rest) = ',' :: (gap ++ (t.toList ++ (itemTail gap last ts ++ rest))) := by
  simp only [itemTail, cons_append, append_assoc]
  exact skip_cons rfl _

theorem value_scalar (hc : c ≠ '"' ∧ c ≠ '[' ∧ c ≠ '\x7b') (fuel levels : Nat) (s : Chars) :
    value (fuel + 1) levels (c :: s) = scalar (c :: s) := by
  rw [value.eq_def]
  split <;> simp_all

theorem value_text (ascii : Bool) (t : String) {fuel levels : Nat} :
    value (fuel + 1) levels ((stringText ascii t).toList ++ rest) = .ok (.text t, rest) := by
  obtain ⟨body, htext, hbody⟩ := stringBody_stringText ascii t ((stringText ascii t).toList ++ rest).length rest
  rw [htext] at hbody ⊢
  rw [value]
  simp only [hbody]
  rfl

/-! Between two brackets. -/

section Brackets

variable {α : Type} {read : Nat → List α → Chars → Except Problem (List α × Chars)} {levels : Nat}
  {opening closing : Char} {wrap : List α → Value}

structure Brackets (opening closing : Char) (levels : Nat) (wrap : List α → Value)
    (read : Nat → List α → Chars → Except Problem (List α × Chars)) : Prop where
  closes : closing = ']' ∨ closing = '\x7d'
  empty {fuel : Nat} {s rest : Chars} (hskip : skip s = closing :: rest) :
    value (fuel + 1) (levels + 1) (opening :: s) = .ok (wrap [], rest)
  members {fuel : Nat} {s first rest : Chars} {c : Char} {xs : List α} (hskip : skip s = c :: first)
    (hc : c ≠ closing) (hread : read fuel [] (c :: first) = .ok (xs, rest)) :
    value (fuel + 1) (levels + 1) (opening :: s) = .ok (wrap xs, rest)

/-- A member is taken from its text, with the closing bracket or the comma after it. -/
structure ReadsBack (read : Nat → List α → Chars → Except Problem (List α × Chars)) (closing : Char)
    (text : String) (x : α) : Prop where
  begins : ∃ c body, text.toList = c :: body ∧ Begins c
  step {fuel : Nat} {rest : Chars} (acc : List α) (after : Chars) (hfuel : 2 * text.toList.length ≤ fuel)
    (hrest : Ends rest) :
    (skip rest = closing :: after → read (fuel + 1) acc (text.toList ++ rest) = .ok ((x :: acc).reverse, after)) ∧
    (skip rest = ',' :: after → read (fuel + 1) acc (text.toList ++ rest) = read fuel (x :: acc) (skip after))

variable {text : α → String} {xs : List α}

theorem read_members (hgap : AllSpaces gap) (hlast : AllSpaces last) (hclosing : isSpace closing = false)
    (hends : Ends (closing :: rest)) {x : α} (h : ∀ y ∈ x :: xs, ReadsBack read closing (text y) y)
    (acc : List α) {fuel : Nat} (hfuel : 2 * ((text x).toList.length +
      (itemTail gap (last ++ [closing]) (xs.map text)).length) + 1 ≤ fuel) :
    read fuel acc ((text x).toList ++ (itemTail gap (last ++ [closing]) (xs.map text) ++ rest)) =
      .ok (acc.reverse ++ x :: xs, rest) := by
  induction xs generalizing x acc fuel with
  | nil =>
    obtain ⟨fuel, rfl⟩ := exists_eq_succ_of_ne_zero (ne_zero_of_lt hfuel)
    rw [map_nil, ((h x mem_cons_self).step acc rest (by omega) (ends_itemTail hlast hends [])).1
      (skip_closing hlast hclosing)]
    simp
  | cons y ys ih =>
    obtain ⟨fuel, rfl⟩ := exists_eq_succ_of_ne_zero (ne_zero_of_lt hfuel)
    rw [forall_mem_cons] at h
    obtain ⟨c, body, hhead, hc⟩ := (h.2 y mem_cons_self).begins
    rw [map_cons] at hfuel ⊢
    simp only [itemTail, length_cons, length_append] at hfuel
    rw [(h.1.step acc _ (by omega) (ends_itemTail hlast hends _)).2 (skip_comma _ _),
      skip_gap hgap (by simp [hhead, hc.1]), ih h.2 (x :: acc) (by omega)]
    simp

theorem Brackets.value_eq (hb : Brackets opening closing levels wrap read) (style : Style) {depth fuel : Nat}
    {first last : String} (hfirst : first.toList = [opening]) (hlast : last.toList = [closing])
    (h : ∀ x ∈ xs, ReadsBack read closing (text x) x)
    (hfuel : 2 * (bracket style depth first last (xs.map text)).toList.length ≤ fuel + 1) :
    value (fuel + 1) (levels + 1) ((bracket style depth first last (xs.map text)).toList ++ rest) =
      .ok (wrap xs, rest) := by
  have hclosing : isSpace closing = false ∧ Ends (closing :: rest) := by
    rcases hb.closes with rfl | rfl <;> simp [isSpace, Ends, Char.isDigit]
  cases xs with
  | nil => simpa [bracket, hfirst, hlast] using hb.empty (skip_cons hclosing.1 rest)
  | cons x xs =>
    obtain ⟨c, body, hx, hc⟩ := (h x mem_cons_self).begins
    have hne : c ≠ closing := by
      rcases hb.closes with rfl | rfl
      · exact hc.2.1
      · exact hc.2.2.1
    rw [map_cons, bracket_toList, hfirst, hlast] at hfuel ⊢
    have hread : read fuel [] _ = _ := read_members (style.gap_spaces (depth + 1)) (style.margin_spaces depth)
      hclosing.1 hclosing.2 h [] (by simp only [length_append, length_singleton] at hfuel ⊢; omega)
    rw [hx] at hread ⊢
    simp only [append_assoc]
    exact hb.members (skip_gap (style.margin_spaces _) (by simp [hc.1])) hne hread

theorem list_brackets (levels : Nat) : Brackets '[' ']' levels .list (items · levels) where
  closes := .inl rfl
  empty hskip := by simp only [value, hskip]
  members hskip hc hread := by
    simp only [value, hskip]
    split
    · next heq => exact absurd (cons.inj heq).1 hc
    · rw [hread]
      rfl

theorem object_brackets (levels : Nat) :
    Brackets '\x7b' '\x7d' levels (fun es => .object (Entries.ofList es)) (entries · levels) where
  closes := .inr rfl
  empty hskip := by simp only [value, hskip]; rfl
  members hskip hc hread := by
    simp only [value, hskip]
    split
    · next heq => exact absurd (cons.inj heq).1 hc
    · rw [hread]
      rfl

end Brackets

section Members

variable {text : String} {v : Value} {levels : Nat} (hbegins : ∃ c body, text.toList = c :: body ∧ Begins c)
  (hread : ∀ {fuel rest}, 2 * text.toList.length ≤ fuel → Ends rest →
    value fuel levels (text.toList ++ rest) = .ok (v, rest))

include hbegins hread

theorem item_readsBack : ReadsBack (items · levels) ']' text v := by
  refine ⟨hbegins, fun acc after hfuel hrest => ?_⟩
  simp only [items, hread hfuel hrest, ok_bind]
  constructor <;> intro hskip <;> simp only [hskip]
  rfl

theorem entry_readsBack (ascii : Bool) (k : String) :
    ReadsBack (entries · levels) '\x7d' (stringText ascii k ++ ": " ++ text) (k, v) := by
  refine ⟨⟨'"', _, by rw [String.toList_append, String.toList_append, stringText_toList]; rfl, by decide⟩,
    fun {fuel} rest acc after hfuel hrest => ?_⟩
  obtain ⟨c, body, hhead, hc⟩ := hbegins
  have hentry : (stringText ascii k ++ ": " ++ text).toList ++ rest =
      (stringText ascii k).toList ++ ':' :: ' ' :: (text.toList ++ rest) := by simp
  have hcolon : skip (':' :: ' ' :: (text.toList ++ rest)) = ':' :: ' ' :: (text.toList ++ rest) := skip_cons rfl _
  have hgap : skip (' ' :: (text.toList ++ rest)) = text.toList ++ rest :=
    skip_gap (show AllSpaces [' '] by simp [AllSpaces, isSpace]) (by simp [hhead, hc.1])
  have hv : value fuel levels _ = _ :=
    hread (by simp only [String.toList_append, length_append] at hfuel; omega) hrest
  rw [hentry]
  obtain ⟨body, htext, hbody⟩ := stringBody_stringText ascii k
    ((stringText ascii k).toList ++ ':' :: ' ' :: (text.toList ++ rest)).length (':' :: ' ' :: (text.toList ++ rest))
  rw [htext] at hbody ⊢
  rw [entries]
  simp only [hbody, ok_bind, hcolon, hgap, hv]
  constructor <;> intro hskip <;> simp only [hskip]
  rfl

end Members

variable (style : Style) (depth : Nat) (vs : List Value)

theorem renderItems_eq : renderItems style depth vs = vs.map (render style depth) := by
  induction vs with
  | nil => rfl
  | cons v vs ih => rw [renderItems, ih, map_cons]

def entryText (e : String × Value) : String := stringText style.ascii e.1 ++ ": " ++ render style depth e.2

theorem renderEntries_eq (es : Entries) :
    (renderEntries style depth es).map (·.2) = es.map (entryText style depth) := by
  induction es with
  | nil => rfl
  | cons e es ih => rw [renderEntries, map_cons, ih, map_cons, entryText]

theorem render_list :
    render style depth (.list vs) = bracket style depth "[" "]" (vs.map (render style (depth + 1))) := by
  rw [render, renderItems_eq]

theorem render_object (hsorted : style.sorted = false) (es : Entries) :
    render style depth (.object es) = bracket style depth "\x7b" "\x7d" (es.map (entryText style (depth + 1))) := by
  rw [render, hsorted, ← renderEntries_eq]
  rfl

variable {levels : Nat}

theorem areDocuments_iff {vs : List Value} : areDocuments levels vs ↔ ∀ v ∈ vs, isDocument levels v := by
  induction vs with
  | nil => simp [areDocuments]
  | cons v vs ih => simp [areDocuments, ih]

theorem entriesAreDocuments_iff {es : Entries} : entriesAreDocuments levels es ↔ ∀ e ∈ es, isDocument levels e.2 := by
  induction es with
  | nil => simp [entriesAreDocuments]
  | cons e es ih => simp [entriesAreDocuments, ih]

theorem isDocument_list {vs : List Value} : isDocument levels (.list vs) ↔
    0 < levels ∧ ∀ v ∈ vs, isDocument (levels - 1) v := by
  simp [isDocument, areDocuments_iff]

theorem isDocument_object {es : Entries} : isDocument levels (.object es) ↔
    0 < levels ∧ es.Distinct ∧ ∀ e ∈ es, isDocument (levels - 1) e.2 := by
  simp [isDocument, entriesAreDocuments_iff, Entries.Distinct, and_assoc]

theorem value_render (hsorted : style.sorted = false) (v : Value) {levels fuel depth : Nat} {rest : Chars}
    (h : isDocument levels v) (hfuel : 2 * (render style depth v).toList.length ≤ fuel) (hrest : Ends rest) :
    value fuel levels ((render style depth v).toList ++ rest) = .ok (v, rest) := by
  induction levels using Nat.strongRecOn generalizing v fuel depth rest with | ind levels ih =>
  obtain ⟨c, body, hhead, -⟩ := render_begins style depth v h
  obtain ⟨fuel, rfl⟩ : ∃ n, fuel = n + 1 := ⟨fuel - 1, by rw [hhead, length_cons] at hfuel; omega⟩
  cases v with
  | null =>
    rw [render]
    exact value_scalar (by decide) fuel levels _
  | bool b =>
    rw [render]
    cases b
    · exact value_scalar (by decide) fuel levels _
    · exact value_scalar (by decide) fuel levels _
  | int n =>
    obtain ⟨c, body, htext, hc⟩ := intText_begins n
    have hread := number?_intText (by simpa [isDocument] using h) hrest
    rw [render]
    rw [htext, cons_append] at hread ⊢
    rw [value_scalar hc.2, scalar_of_number? hread]
  | float x =>
    obtain ⟨c, body, htext, hc⟩ := floatWord_begins x
    have hread := scalar_floatWord x hrest
    rw [render]
    rw [htext, cons_append] at hread ⊢
    rw [value_scalar hc.2, hread]
  | text s =>
    rw [render]
    exact value_text style.ascii s
  | list items =>
    obtain ⟨hlevels, hdocs⟩ := isDocument_list.mp h
    obtain ⟨levels, rfl⟩ := exists_eq_succ_of_ne_zero hlevels.ne'
    rw [render_list] at hfuel ⊢
    refine (list_brackets levels).value_eq style rfl rfl (fun w hw => ?_) hfuel
    exact item_readsBack (render_begins style _ w (hdocs w hw)) (ih levels (lt_add_one levels) w (hdocs w hw))
  | object entries =>
    obtain ⟨hlevels, hdistinct, hdocs⟩ := isDocument_object.mp h
    obtain ⟨levels, rfl⟩ := exists_eq_succ_of_ne_zero hlevels.ne'
    rw [render_object style depth hsorted] at hfuel ⊢
    rw [(object_brackets levels).value_eq style rfl rfl (fun e he => ?_) hfuel, Entries.ofList_of_distinct hdistinct]
    exact entry_readsBack (render_begins style _ e.2 (hdocs e he)) (ih levels (lt_add_one levels) e.2 (hdocs e he))
      style.ascii e.1
  | mapping pairs => simp [isDocument] at h
  | special s => simp [isDocument] at h

section Texts

variable {s rest : Chars} {v : Value} (hmark : s.head? ≠ some (Char.ofNat 0xFEFF))

include hmark

theorem parse_of_whole (hv : value (2 * s.length + 2) maxDepth (skip s) = .ok (v, rest)) (hrest : skip rest = []) :
    parse (String.ofList s) = .ok v := by
  unfold parse
  simp only [String.toList_ofList, if_neg hmark, hv, hrest, ok_bind]
  rfl

theorem document?_of_extra (hv : value (2 * s.length + 2) maxDepth (skip s) = .ok (v, rest))
    (hrest : skip rest ≠ []) : document? (String.ofList s) = .ok none := by
  unfold document? parse
  simp only [String.toList_ofList, if_neg hmark, hv, ok_bind]
  rfl

theorem document?_of_expected {words : String} {left : Nat}
    (hv : value (2 * s.length + 2) maxDepth (skip s) = .error (.expected words left)) :
    document? (String.ofList s) = .ok none := by
  unfold document? parse
  simp only [String.toList_ofList, if_neg hmark, hv]
  rfl

end Texts

theorem parse_write (hsorted : style.sorted = false) {v : Value} (h : isDocument maxDepth v) :
    parse (write style v) = .ok v := by
  obtain ⟨c, body, hhead, hspace, -, -, hmark⟩ := render_begins style 0 v h
  have hread := value_render style hsorted v h (le_add_right (2 * (render style 0 v).toList.length) 2)
    (show Ends [] by simp [Ends])
  rw [append_nil] at hread
  rw [write, ← String.ofList_toList (s := render style 0 v)]
  refine parse_of_whole (by simpa [hhead] using hmark) ?_ (show skip [] = [] from rfl)
  rw [hhead] at hread ⊢
  rwa [skip_cons hspace]

end CodeAudit.Json

import CodeAudit.Journal
import CodeAudit.Proofs.JsonLine
import CodeAudit.Proofs.TimeText

/-! What is found in the log of events. Events take several lines and the log is read line by line,
so no event is ever found. -/

namespace CodeAudit.Journal

open List Json Time Char Date Event

def linesIn (s : Chars) : List String := (Chars.splitOn '\n' s).map String.ofList

theorem linesIn_append (s t : Chars) : linesIn (s ++ '\n' :: t) = linesIn s ++ linesIn t := by
  rw [linesIn, Chars.splitOn_append, map_append]
  rfl

inductive Reads : List String → List Value → Prop where
  | nil : Reads [] []
  | cons {line : String} {found : Option Value} {lines : List String} {values : List Value}
      (hline : document? line = .ok found) (hlines : Reads lines values) :
      Reads (line :: lines) (found.toList ++ values)

variable {values others : List Value}

theorem Reads.append {lines more : List String} (h : Reads lines values)
    (hmore : Reads more others) : Reads (lines ++ more) (values ++ others) := by
  induction h with
  | nil => exact hmore
  | cons hline _ ih =>
    rw [append_assoc]
    exact .cons hline ih

theorem reads_line {s : Chars} (hs : '\n' ∉ s) {found : Option Value}
    (h : document? (String.ofList s) = .ok found) : Reads (linesIn s) found.toList := by
  rw [linesIn, Chars.splitOn_of_notMem hs, ← append_nil found.toList]
  exact .cons h .nil

theorem Reads.next {s t : Chars} (h : Reads (linesIn s) values)
    (ht : Reads (linesIn t) others) : Reads (linesIn (s ++ '\n' :: t)) (values ++ others) := by
  rw [linesIn_append]
  exact h.append ht

/-! Values that stand alone. -/

def isBare : Value → Bool
  | .list items => items.isEmpty
  | .object entries => entries.isEmpty
  | .mapping pairs => pairs.isEmpty
  | _ => true

mutual

/-- The values inside a value that stand alone on a line: the last items of lists, if they fit on
one line. -/
def loneIn : Value → List Value
  | .list items => loneItems items
  | .object entries => loneEntries entries
  | _ => []

def loneItems : List Value → List Value
  | [] => []
  | v :: rest => (if rest.isEmpty && isBare v then [v] else loneIn v) ++ loneItems rest

def loneEntries : List (String × Value) → List Value
  | [] => []
  | (_, v) :: rest => loneIn v ++ loneEntries rest

end

variable {v : Value}

theorem loneIn_of_bare (h : isBare v) : loneIn v = [] := by
  cases v with
  | list items =>
    rw [isEmpty_iff.mp h]
    rfl
  | object entries =>
    rw [isEmpty_iff.mp h]
    rfl
  | _ => rfl

mutual

theorem isBare_of_mem_loneIn (v : Value) : ∀ w ∈ loneIn v, isBare w := by
  cases v with
  | list items => exact isBare_of_mem_loneItems items
  | object entries => exact isBare_of_mem_loneEntries entries
  | _ => simp [loneIn]
termination_by sizeOf v

theorem isBare_of_mem_loneItems (vs : List Value) : ∀ w ∈ loneItems vs, isBare w := by
  cases vs with
  | nil => simp [loneItems]
  | cons v rest =>
    rw [loneItems, forall_mem_append]
    refine ⟨?_, isBare_of_mem_loneItems rest⟩
    split_ifs with h
    · simpa using (Bool.and_eq_true _ _ ▸ h).2
    · exact isBare_of_mem_loneIn v
termination_by sizeOf vs

theorem isBare_of_mem_loneEntries (es : Entries) : ∀ w ∈ loneEntries es, isBare w := by
  cases es with
  | nil => simp [loneEntries]
  | cons e rest =>
    cases e with
    | mk k v =>
      rw [loneEntries, forall_mem_append]
      exact ⟨isBare_of_mem_loneIn v, isBare_of_mem_loneEntries rest⟩
termination_by sizeOf es

end

/-! Lines that are no documents. -/

def logStyle : Style := { indent := some 2 }

def blanks (depth : Nat) : Chars := List.replicate (2 * depth) ' '

variable (depth : Nat)

theorem margin_logStyle : logStyle.margin depth = '\n' :: blanks depth := rfl

theorem gap_logStyle : logStyle.gap depth = '\n' :: blanks depth := rfl

theorem blanks_spaces : AllSpaces (blanks depth) := by
  intro c hc
  rw [eq_of_mem_replicate hc]
  rfl

theorem notMem_blanks : '\n' ∉ blanks depth := by
  intro hc
  cases eq_of_mem_replicate hc

section Line

variable {gap : Chars} (hgap : AllSpaces gap) {c : Char} (hc : isSpace c = false ∧ c ≠ ofNat 0xFEFF)
  {s : Chars}

include hgap hc

theorem skip_line : skip (gap ++ c :: s) = c :: s := skip_gap hgap (by simpa using hc.1)

theorem head?_line : (gap ++ c :: s).head? ≠ some (ofNat 0xFEFF) := by
  cases gap with
  | nil => simpa using hc.2
  | cons d gap =>
    intro h
    have hd := hgap d mem_cons_self
    rw [cons_append, List.head?_cons, Option.some.injEq] at h
    rw [h] at hd
    revert hd
    decide

theorem document?_unread
    (h : ∀ fuel, ∃ words left, value (fuel + 3) maxDepth (c :: s) = .error (.expected words left)) :
    document? (String.ofList (gap ++ c :: s)) = .ok none := by
  have hlength : 2 * (gap ++ c :: s).length + 2 = 2 * (gap.length + s.length) + 1 + 3 := by
    rw [length_append, length_cons]
    omega
  obtain ⟨words, left, hv⟩ := h (2 * (gap.length + s.length) + 1)
  exact document?_of_expected (head?_line hgap hc) (by rw [skip_line hgap hc, hlength, hv])

variable {v : Value} {rest : Chars}
  (hv : ∀ fuel, 2 * (c :: s).length ≤ fuel → value fuel maxDepth (c :: s) = .ok (v, rest))

include hv

theorem value_line : value (2 * (gap ++ c :: s).length + 2) maxDepth (skip (gap ++ c :: s)) = .ok (v, rest) := by
  rw [skip_line hgap hc]
  refine hv _ ?_
  rw [length_append]
  omega

theorem document?_whole (hrest : rest = []) : document? (String.ofList (gap ++ c :: s)) = .ok (some v) := by
  have hread := parse_of_whole (head?_line hgap hc) (value_line hgap hc hv) (by rw [hrest]; rfl)
  rw [document?, hread]

theorem document?_extra {d : Char} {more : Chars} (hrest : rest = d :: more) (hd : isSpace d = false) :
    document? (String.ofList (gap ++ c :: s)) = .ok none := by
  refine document?_of_extra (head?_line hgap hc) (value_line hgap hc hv) ?_
  rw [hrest, skip_cons hd]
  exact cons_ne_nil d more

end Line

theorem scalar_nil : scalar [] = .error (.expected "Expecting value" 0) := rfl

theorem value_nil (fuel levels : Nat) : ∃ words left, value fuel levels [] = .error (.expected words left) := by
  cases fuel with
  | zero => exact ⟨_, _, by rw [value]⟩
  | succ fuel => exact ⟨_, _, by rw [value.eq_def]; exact scalar_nil⟩

theorem value_open {c : Char} (hc : c = '[' ∨ c = '\x7b') (fuel : Nat) :
    ∃ words left, value (fuel + 3) maxDepth [c] = .error (.expected words left) := by
  obtain ⟨words, left, hv⟩ := value_nil (fuel + 1) 979
  rcases hc with rfl | rfl
  · refine ⟨words, left, ?_⟩
    rw [maxDepth, value]
    simp only [skip, dropWhile_nil, items, hv]
    rfl
  · exact ⟨_, _, by rw [maxDepth]; rfl⟩

theorem value_close {c : Char} (hc : c = ']' ∨ c = '\x7d') (fuel : Nat) (s : Chars) :
    ∃ words left, value (fuel + 3) maxDepth (c :: s) = .error (.expected words left) := by
  rcases hc with rfl | rfl
  · exact ⟨_, _, value_scalar (by decide) _ _ s⟩
  · exact ⟨_, _, value_scalar (by decide) _ _ s⟩

theorem value_dashed {ds : Chars} (hne : ds ≠ []) (hds : AllDigits ds) (hlength : ds.length ≤ maxDigits)
    (rest : Chars) (fuel levels : Nat) :
    ∃ v d more, value (fuel + 1) levels (ds ++ '-' :: rest) = .ok (v, d :: more) ∧ isSpace d = false := by
  obtain ⟨c, ds, rfl⟩ := exists_cons_of_ne_nil hne
  have hc := hds c mem_cons_self
  obtain ⟨whole, d, more, hwhole, hshort, hd⟩ : ∃ whole d more,
      wholePart (c :: (ds ++ '-' :: rest)) = some (whole, d :: more) ∧ whole.length ≤ maxDigits ∧
        (d = '-' ∨ d.isDigit) := by
    by_cases hzero : c = '0'
    · -- A leading zero is a number of its own, and the next digit is already too much.
      subst hzero
      cases ds with
      | nil => exact ⟨['0'], '-', rest, rfl, by decide, .inl rfl⟩
      | cons d ds => exact ⟨['0'], d, ds ++ '-' :: rest, rfl, by decide, .inr (hds d (by simp))⟩
    · exact ⟨c :: ds, '-', rest, wholePart_digits hzero hds _ (by simp), hlength, .inl rfl⟩
  have hnext : isSpace d = false ∧ d ≠ '.' ∧ d ≠ 'e' ∧ d ≠ 'E' := by
    rcases hd with rfl | hd
    · decide
    · exact ⟨(beginsScalar_of_digit hd).1.1, (digit_ne hd).2⟩
  have hf : fractionPart (d :: more) = ([], d :: more) := fractionPart_of_ne _ (by simpa using hnext.2.1)
  have he : exponentPart (d :: more) = (none, d :: more) := exponentPart_of_ne (by simpa using hnext.2.2)
  have hread := scalar_of_number? (number?_whole false (digit_ne hc).1 hwhole hf he hshort)
  exact ⟨_, d, more, (value_scalar (beginsScalar_of_digit hc).2 fuel levels _).trans hread, hnext.1⟩

/-! The lines of a value. -/

def comma (last : Bool) : Chars := if last then [] else [',']

variable {levels : Nat}

theorem isDocument_of_bare (hbare : isBare v) (h : isDocument levels v) : isDocument maxDepth v := by
  cases v with
  | list items => simp [isEmpty_iff.mp hbare, isDocument, areDocuments, maxDepth]
  | object entries => simp [isEmpty_iff.mp hbare, isDocument, entriesAreDocuments, maxDepth]
  | _ => exact h

theorem document?_item (hbare : isBare v) (h : isDocument levels v) (depth : Nat) (last : Bool) :
    document? (String.ofList (blanks depth ++ ((render logStyle depth v).toList ++ comma last))) =
      .ok (if last then some v else none) := by
  obtain ⟨c, body, htext, hbegins⟩ := render_begins logStyle depth v h
  have hread : ∀ fuel, 2 * (c :: (body ++ comma last)).length ≤ fuel →
      value fuel maxDepth (c :: (body ++ comma last)) = .ok (v, comma last) := by
    intro fuel hfuel
    have hends : Ends (comma last) := by cases last <;> simp [comma, Ends]
    rw [← cons_append, ← htext] at hfuel ⊢
    refine value_render logStyle rfl v (isDocument_of_bare hbare h) ?_ hends
    rw [length_append] at hfuel
    omega
  have hc : isSpace c = false ∧ c ≠ ofNat 0xFEFF := ⟨hbegins.1, hbegins.2.2.2⟩
  rw [htext]
  cases last with
  | true => exact document?_whole (blanks_spaces depth) hc hread rfl
  | false => exact document?_extra (blanks_spaces depth) hc hread rfl rfl

theorem document?_key (k : String) (depth : Nat) (rest : Chars) :
    document? (String.ofList (blanks depth ++ ((stringText true k).toList ++ ':' :: rest))) = .ok none := by
  have hread : ∀ fuel, 2 * ((stringText true k).toList ++ ':' :: rest).length ≤ fuel →
      value fuel maxDepth ((stringText true k).toList ++ ':' :: rest) = .ok (.text k, ':' :: rest) := by
    intro fuel hfuel
    obtain ⟨fuel, rfl⟩ : ∃ n, fuel = n + 1 := ⟨fuel - 1, by simp at hfuel; omega⟩
    exact value_text true k
  rw [stringText_toList, cons_append] at hread ⊢
  exact document?_extra (blanks_spaces depth) (by decide) hread rfl rfl

section Brackets

variable {α : Type} {text : α → String} {found : Bool → α → List Value} {depth : Nat}

def foundAll (found : Bool → α → List Value) : List α → List Value
  | [] => []
  | x :: rest => found rest.isEmpty x ++ foundAll found rest

theorem itemTail_append (gap last rest : Chars) (ts : List String) :
    itemTail gap last ts ++ rest = itemTail gap (last ++ rest) ts := by
  induction ts with
  | nil => rfl
  | cons t ts ih => simp only [itemTail, cons_append, append_assoc, ih]

theorem reads_items (x : α) (xs : List α) {closing : Chars} (hread : ∀ y ∈ x :: xs, ∀ last,
      Reads (linesIn (blanks (depth + 1) ++ ((text y).toList ++ comma last))) (found last y))
    (hclosing : Reads (linesIn (blanks depth ++ closing)) []) :
    Reads (linesIn (blanks (depth + 1) ++ ((text x).toList ++
      itemTail ('\n' :: blanks (depth + 1)) ('\n' :: (blanks depth ++ closing)) (xs.map text))))
      (foundAll found (x :: xs)) := by
  rw [forall_mem_cons] at hread
  induction xs generalizing x with
  | nil =>
    -- Nothing follows the last item on its line, so that the line may be a document.
    have hlast := (hread.1 true).next hclosing
    simpa [comma, itemTail, foundAll] using hlast
  | cons y ys ih =>
    have hitem := (hread.1 false).next (ih y (forall_mem_cons.mp hread.2))
    simpa [comma, itemTail, foundAll] using hitem

theorem reads_bracket {before after : Chars} (hbefore : '\n' ∉ before) (hafter : '\n' ∉ after)
    {opening closing : String} {o c : Char} (ho : opening.toList = [o]) (hc : closing.toList = [c])
    (hopen : o ≠ '\n' ∧ document? (String.ofList (before ++ [o])) = .ok none) (hclose : c = ']' ∨ c = '\x7d')
    (x : α) (xs : List α) (hread : ∀ y ∈ x :: xs, ∀ last,
      Reads (linesIn (blanks (depth + 1) ++ ((text y).toList ++ comma last))) (found last y)) :
    Reads (linesIn (before ++ ((bracket logStyle depth opening closing ((x :: xs).map text)).toList ++ after)))
      (foundAll found (x :: xs)) := by
  have hfirst : Reads (linesIn (before ++ [o])) [] := reads_line (by simp [hbefore, hopen.1.symm]) hopen.2
  have hlast : Reads (linesIn (blanks depth ++ c :: after)) [] := by
    have hspace : c ≠ '\n' ∧ isSpace c = false ∧ c ≠ ofNat 0xFEFF := by
      rcases hclose with rfl | rfl <;> decide
    have hnone := document?_unread (blanks_spaces depth) hspace.2 fun fuel => value_close hclose fuel after
    exact reads_line (by simp [notMem_blanks, hafter, hspace.1.symm]) hnone
  have hlines := hfirst.next (reads_items x xs hread hlast)
  rw [map_cons, bracket_toList, margin_logStyle, margin_logStyle, gap_logStyle, ho, hc]
  simpa [itemTail_append] using hlines

end Brackets

theorem loneItems_eq (vs : List Value) :
    loneItems vs = foundAll (fun last v => if last && isBare v then [v] else loneIn v) vs := by
  induction vs with
  | nil => rfl
  | cons v vs ih => rw [loneItems, foundAll, ih]

theorem loneEntries_eq (es : Entries) : loneEntries es = foundAll (fun _ e => loneIn e.2) es := by
  induction es with
  | nil => rfl
  | cons e es ih => rw [loneEntries, foundAll, ih]

theorem notMem_render_bare (hbare : isBare v) (h : isDocument levels v)
    (depth : Nat) : '\n' ∉ (render logStyle depth v).toList := by
  have hsame : render logStyle depth v = render {} 0 v := by
    cases v with
    | list items =>
      rw [isEmpty_iff.mp hbare]
      rfl
    | object entries =>
      rw [isEmpty_iff.mp hbare]
      rfl
    | mapping pairs => simp [isDocument] at h
    | _ => rfl
  rw [hsame]
  exact fun hc => (inline_render {} rfl rfl h 0 _ hc).1 rfl

/-- In the lines of the value its lone values are found, and before them what is found in a first
line on which the whole value fits. -/
def LinesRead (v : Value) : Prop :=
  ∀ (depth : Nat) {before after : Chars} (_ : '\n' ∉ before) (_ : '\n' ∉ after) {found : Option Value}
    (_ : ∀ c, c = '[' ∨ c = '\x7b' → document? (String.ofList (before ++ [c])) = .ok none)
    (_ : isBare v = true →
      document? (String.ofList (before ++ ((render logStyle depth v).toList ++ after))) = .ok found),
    Reads (linesIn (before ++ ((render logStyle depth v).toList ++ after)))
      (if isBare v then found.toList else loneIn v)

theorem linesRead_of_bare (hb : isBare v) (h : isDocument levels v) : LinesRead v := by
  intro depth before after hbefore hafter found hopen hbare
  rw [if_pos hb]
  exact reads_line (by simp [hbefore, hafter, notMem_render_bare hb h]) (hbare hb)

theorem comma_inline (last : Bool) : '\n' ∉ comma last := by
  cases last <;> simp [comma]

theorem LinesRead.item (hv : LinesRead v) (h : isDocument levels v) (depth : Nat)
    (last : Bool) : Reads (linesIn (blanks depth ++ ((render logStyle depth v).toList ++ comma last)))
      (if last && isBare v then [v] else loneIn v) := by
  have hread := hv depth (notMem_blanks depth) (comma_inline last)
    (fun c hc => document?_unread (blanks_spaces depth) (by rcases hc with rfl | rfl <;> decide)
      fun fuel => value_open hc fuel)
    (fun hb => document?_item hb h depth last)
  by_cases hb : isBare v
  · cases last <;> simpa [loneIn_of_bare hb] using hread
  · simpa [hb] using hread

theorem LinesRead.behind (hv : LinesRead v) (depth : Nat) {before after : Chars}
    (hbefore : '\n' ∉ before) (hafter : '\n' ∉ after)
    (hspoilt : ∀ rest, document? (String.ofList (before ++ rest)) = .ok none) :
    Reads (linesIn (before ++ ((render logStyle depth v).toList ++ after))) (loneIn v) := by
  have hread := hv depth hbefore hafter (fun c _ => hspoilt [c]) (fun _ => hspoilt _)
  by_cases hb : isBare v
  · simpa [loneIn_of_bare hb] using hread
  · simpa [hb] using hread

theorem linesRead_list {x : Value} {xs : List Value} (hdocs : ∀ y ∈ x :: xs, isDocument levels y)
    (hread : ∀ y ∈ x :: xs, LinesRead y) : LinesRead (.list (x :: xs)) := by
  intro depth before after hbefore hafter found hopen hbare
  rw [loneIn, loneItems_eq, render_list]
  exact reads_bracket hbefore hafter rfl rfl ⟨by decide, hopen _ (.inl rfl)⟩ (.inl rfl) x xs
    fun y hy last => (hread y hy).item (hdocs y hy) (depth + 1) last

theorem linesRead_object {x : String × Value} {xs : Entries}
    (hread : ∀ y ∈ x :: xs, LinesRead y.2) : LinesRead (.object (x :: xs)) := by
  intro depth before after hbefore hafter found hopen hbare
  rw [if_neg (by simp [isBare]), loneIn, loneEntries_eq, render_object logStyle depth rfl]
  refine reads_bracket hbefore hafter rfl rfl ⟨by decide, hopen _ (.inr rfl)⟩ (.inr rfl) x xs fun y hy last => ?_
  have hkey : '\n' ∉ blanks (depth + 1) ++ ((stringText true y.1).toList ++ [':', ' ']) := by
    have hinline : '\n' ∉ (stringText true y.1).toList := fun hc => (inline_stringText true y.1 _ hc).1 rfl
    simp [notMem_blanks, hinline]
  have hentry := (hread y hy).behind (depth + 1) hkey (comma_inline last) fun rest => by
    have hnone := document?_key y.1 (depth + 1) (' ' :: rest)
    simpa using hnone
  simpa [entryText, logStyle] using hentry

theorem linesRead_of_isDocument {v : Value} {levels : Nat} (h : isDocument levels v) : LinesRead v := by
  induction levels using Nat.strongRecOn generalizing v with | ind levels ih =>
  cases v with
  | list items =>
    obtain ⟨hlevels, hitems⟩ := isDocument_list.mp h
    cases items with
    | nil => exact linesRead_of_bare rfl h
    | cons x xs => exact linesRead_list hitems fun y hy => ih _ (Nat.sub_one_lt_of_lt hlevels) (hitems y hy)
  | object entries =>
    obtain ⟨hlevels, -, hentries⟩ := isDocument_object.mp h
    cases entries with
    | nil => exact linesRead_of_bare rfl h
    | cons x xs => exact linesRead_object fun y hy => ih _ (Nat.sub_one_lt_of_lt hlevels) (hentries y hy)
  | mapping pairs => simp [isDocument] at h
  | _ => exact linesRead_of_bare rfl h

theorem inline_padded (width n : Nat) : Inline (padded width n).toList := by
  rw [padded_toList]
  exact ((allDigits_zeros _).append (allDigits_toDigits n)).inline

theorem inline_levelName (n : Nat) : Inline (levelName n).toList := by
  have hnames : ∀ e ∈ levels, Inline e.1.toList := by simp [levels]
  unfold levelName
  cases h : levels.find? fun e => e.2 = n with
  | none => simp
  | some e => exact hnames e (mem_of_find?_eq_some h)

theorem inline_stamp (t : DateTime) (level : Nat) : Inline (stamp t level).toList := by
  simp [stamp, text, clockText, inline_padded, inline_levelName]

theorem document?_stamp {t : DateTime} (h : t.OnCalendar) (level : Nat) (rest : Chars) :
    document? (String.ofList ((stamp t level).toList ++ rest)) = .ok none := by
  obtain ⟨hyear, hyear'⟩ := ofDays_year h.first h.last
  obtain ⟨hlength, hdigits, -⟩ := @paddedDigits_spec 4 (ofDays t.day).year.toNat (by decide) (by omega)
  obtain ⟨more, hmore⟩ : ∃ more, (stamp t level).toList ++ rest =
      paddedDigits 10 4 (ofDays t.day).year.toNat ++ '-' :: more := by
    rw [← padded_toList]
    exact ⟨_, by simp only [stamp, text, String.toList_append, append_assoc]; rfl⟩
  generalize paddedDigits 10 4 (ofDays t.day).year.toNat = ds at *
  have hread := value_dashed (ne_nil_of_length_pos (by omega)) hdigits (by rw [hlength]; decide) more
  rw [hmore]
  cases ds with
  | nil => simp at hlength
  | cons c ds =>
    have hc := (beginsScalar_of_digit (hdigits c mem_cons_self)).1
    have hline : (c :: ds ++ '-' :: more).head? ≠ some (ofNat 0xFEFF) := by simpa using hc.2.2.2
    obtain ⟨v, d, after, hv, hd⟩ := hread (2 * (c :: ds ++ '-' :: more).length + 1) maxDepth
    have hskip : skip (c :: ds ++ '-' :: more) = c :: ds ++ '-' :: more := skip_cons hc.1 _
    refine document?_of_extra hline (by rw [hskip]; exact hv) ?_
    rw [skip_cons hd]
    exact cons_ne_nil d after

namespace Event

/-- An event that is written to the log: of a known severity that is not too low, with texts and a
document. -/
structure Loggable (e : Event) : Prop where
  time : e.time.OnCalendar
  level : ∃ n, e.level = .ok n ∧ leastLevel ≤ n
  kind : ∃ s, e.kind = .text s
  description : ∃ s, e.description = .text s
  details : ∃ entries, e.details = .object entries ∧ isDocument (maxDepth - 1) (.object entries) = true

def remains (e : Event) : List Value := loneIn e.details

variable {e : Event}

theorem severity_of_level {n : Nat} (h : e.level = .ok n) : ∃ s, e.severity = .text s := by
  unfold level at h
  split at h
  · next s hs => exact ⟨s, hs⟩
  · cases h

theorem Loggable.document (h : e.Loggable) :
    isDocument maxDepth e.toValue ∧ loneIn e.toValue = e.remains := by
  obtain ⟨kind, hkind⟩ := h.kind
  obtain ⟨description, hdescription⟩ := h.description
  obtain ⟨n, hlevel, -⟩ := h.level
  obtain ⟨severity, hseverity⟩ := severity_of_level hlevel
  obtain ⟨entries, hentries, hdetails⟩ := h.details
  have hvalue : e.toValue = .object [("timestamp", .text e.time.text), ("event_type", .text kind),
      ("description", .text description), ("severity", .text severity), ("details", .object entries)] := by
    rw [toValue, toEntries, hkind, hdescription, hseverity, hentries, Entries.object_kept]
  rw [hvalue, isDocument_object, remains, hentries]
  refine ⟨⟨by decide, by simp [Entries.Distinct], ?_⟩, by simp [loneIn, loneEntries]⟩
  simp only [forall_mem_cons]
  exact ⟨by simp [isDocument], by simp [isDocument], by simp [isDocument], by simp [isDocument], hdetails, by simp⟩

theorem Loggable.logText (h : e.Loggable) :
    ∃ text, e.logText = .ok (text ++ "\n") ∧ '\r' ∉ text.toList ∧ Reads (linesIn text.toList) e.remains := by
  obtain ⟨n, hlevel, hleast⟩ := h.level
  obtain ⟨hdocument, hremains⟩ := h.document
  have hstamp := inline_stamp e.time n
  refine ⟨stamp e.time n ++ Json.write logStyle e.toValue, ?_, ?_, ?_⟩
  · rw [Event.logText, hlevel]
    exact congrArg _ (if_neg (Nat.not_lt.mpr hleast))
  · rw [String.toList_append, mem_append, not_or]
    exact ⟨fun hc => (hstamp _ hc).2 rfl, notMem_return_render logStyle rfl hdocument 0⟩
  · have hread := (linesRead_of_isDocument hdocument).behind 0 (fun hc => (hstamp _ hc).1 rfl)
      (not_mem_nil) (document?_stamp h.time n)
    rw [hremains, append_nil] at hread
    rw [String.toList_append]
    exact hread

end Event

def writeAll (log : String) (events : List Event) : Outcome String := events.foldlM write log

theorem document?_empty : document? "" = .ok none := rfl

theorem writeAll_eq (log : String) {events : List Event} (h : ∀ e ∈ events, e.Loggable) :
    ∃ text, writeAll log events = .ok (log ++ text) ∧ '\r' ∉ text.toList ∧
      Reads (linesIn text.toList) (events.flatMap remains) := by
  induction events generalizing log with
  | nil => exact ⟨"", by rw [String.append_empty]; rfl, not_mem_nil, .cons document?_empty .nil⟩
  | cons e events ih =>
    rw [forall_mem_cons] at h
    obtain ⟨first, hfirst, hreturn, hread⟩ := h.1.logText
    obtain ⟨text, hwrite, hreturns, hreads⟩ := ih (log ++ (first ++ "\n")) h.2
    have hone : write log e = .ok (log ++ (first ++ "\n")) := by
      rw [write, hfirst]
      rfl
    refine ⟨first ++ "\n" ++ text, ?_, ?_, ?_⟩
    · rw [writeAll, foldlM_cons, hone]
      exact hwrite.trans (by simp only [String.append_assoc])
    · simp [hreturn, hreturns]
    · simpa using hread.next hreads

section Collect

variable {kind severity : Value} {lines : List String} {values : List Value}

theorem collect_pass {line : String} (h : document? line = .ok none) (limit : Value) (found : List Value) :
    collect kind severity limit found (line :: lines) = collect kind severity limit found lines := by
  rw [collect, h]
  rfl

theorem isWanted_of_unasked (hkind : kind.truthy = false) (hseverity : severity.truthy = false) (v : Value) :
    isWanted kind severity v = .ok true := by
  simp [isWanted, fits, hkind, hseverity]

theorem collect_of_reads (hkind : kind.truthy = false) (hseverity : severity.truthy = false) {n : Nat}
    (h : Reads lines values) {found : List Value} (hfound : found.length < n) :
    collect kind severity (.nat n) found lines = .ok (found ++ values.take (n - found.length)) := by
  induction h generalizing found with
  | nil => simp [collect]
  | @cons line entry lines values hline hlines ih =>
    cases entry with
    | none => rw [collect_pass hline, ih hfound, Option.toList_none, nil_append]
    | some v =>
      have henough : (Value.nat (found ++ [v]).length).atLeast (.nat n) = .ok (decide (n ≤ found.length + 1)) := by
        refine (Value.atLeast_nat_int _ _).trans ?_
        simp only [Nat.cast_le, length_append, length_singleton]
      obtain ⟨m, hm⟩ : ∃ m, n - found.length = m + 1 := ⟨n - found.length - 1, by omega⟩
      rw [collect, hline]
      simp only [ok_bind, isWanted_of_unasked hkind hseverity, if_true, henough]
      rw [hm, Option.toList_some, singleton_append, take_succ_cons]
      by_cases hle : n ≤ found.length + 1
      · rw [if_pos (decide_eq_true hle), show m = 0 by omega]
        rfl
      · rw [if_neg (by simpa using hle), ih (by rw [length_append, length_singleton]; omega),
          length_append, length_singleton, show n - (found.length + 1) = m by omega, append_assoc]
        rfl

theorem member_of_bare (h : isBare v) (key : String) : ∃ f, v.member key = .error f := by
  cases v with
  | object entries =>
    rw [isEmpty_iff.mp h]
    exact ⟨_, rfl⟩
  | mapping pairs =>
    rw [isEmpty_iff.mp h]
    exact ⟨_, rfl⟩
  | _ => exact ⟨_, rfl⟩

theorem isWanted_of_bare (hasked : kind.truthy ∨ severity.truthy) (h : isBare v) :
    ∃ f, isWanted kind severity v = .error f := by
  obtain ⟨f, hf⟩ := member_of_bare h "event_type"
  obtain ⟨g, hg⟩ := member_of_bare h "severity"
  cases hkind : kind.truthy with
  | true => exact ⟨f, by simp [isWanted, fits, hkind, hf]⟩
  | false =>
    have hseverity : severity.truthy := by simpa [hkind] using hasked
    exact ⟨g, by simp [isWanted, fits, hkind, hseverity, hg]⟩

theorem collect_of_asked (hasked : kind.truthy ∨ severity.truthy) (h : Reads lines values)
    (hbare : ∀ v ∈ values, isBare v) (limit : Value) (found : List Value) :
    (values = [] → collect kind severity limit found lines = .ok found) ∧
      (values ≠ [] → ∃ f, collect kind severity limit found lines = .error f) := by
  induction h with
  | nil => exact ⟨fun _ => rfl, fun hne => absurd rfl hne⟩
  | @cons line entry lines values hline hlines ih =>
    cases entry with
    | none =>
      rw [collect_pass hline]
      exact ih hbare
    | some v =>
      obtain ⟨f, hf⟩ := isWanted_of_bare hasked (hbare v (by simp))
      rw [collect, hline]
      simp [hf]

end Collect

theorem recent_eq {log : String} (h : '\r' ∉ log.toList) (kind severity limit : Value) :
    recent log kind severity limit = collect kind severity limit [] (linesIn log.toList) := by
  rw [recent, Text.splitOn, Text.unifyNewlines, String.toList_ofList, Chars.unifyNewlines_of_notMem h]
  rfl

theorem isBare_of_mem_remains {events : List Event} (h : v ∈ events.flatMap remains) : isBare v := by
  obtain ⟨e, -, hv⟩ := mem_flatMap.mp h
  exact isBare_of_mem_loneIn e.details v hv

/-- After any events were written to an empty log, asking for the recent ones yields the first
values that end a list inside the details of an event and fit on one line, and never an event. If a
kind or a severity is asked for, the first such value is a fault. -/
theorem recent_writeAll {events : List Event} (h : ∀ e ∈ events, e.Loggable) {n : Nat}
    (hn : 0 < n) :
    ∃ log, writeAll "" events = .ok log ∧
      (∀ kind severity : Value, kind.truthy = false → severity.truthy = false →
        recent log kind severity (.nat n) = .ok ((events.flatMap Event.remains).take n)) ∧
      (∀ v ∈ events.flatMap Event.remains, ∀ e : Event, v ≠ e.toValue) ∧
      ∀ kind severity : Value, kind.truthy = true ∨ severity.truthy = true →
        (events.flatMap Event.remains = [] → recent log kind severity (.nat n) = .ok []) ∧
        (events.flatMap Event.remains ≠ [] →
          ∃ f, recent log kind severity (.nat n) = .error f) := by
  obtain ⟨log, hwrite, hreturn, hreads⟩ := writeAll_eq "" h
  rw [String.empty_append] at hwrite
  refine ⟨log, hwrite, ?_, ?_, ?_⟩
  · intro kind severity hkind hseverity
    rw [recent_eq hreturn]
    exact collect_of_reads hkind hseverity hreads hn
  · rintro v hv e rfl
    exact absurd (isBare_of_mem_remains hv) (by simp [Event.toValue, Event.toEntries, isBare])
  · intro kind severity hasked
    rw [recent_eq hreturn]
    exact collect_of_asked hasked hreads (fun v hv => isBare_of_mem_remains hv) _ _

def sampleEvents : List Event := [
  .note ⟨19723, 0, none⟩ "scan" "Port scan" "WARNING" [("source", .text "10.0.0.1")],
  .note ⟨19723, 2500000, none⟩ "scan" "Open ports" "ERROR" [
    ("ports", .list [.int 22, .int 443]), ("hosts", .list [.list [], .object [("up", .bool true)]])]]

theorem sampleEvents_loggable : ∀ e ∈ sampleEvents, e.Loggable := by
  simp only [sampleEvents, forall_mem_cons]
  exact ⟨
    ⟨⟨by decide, by decide, by decide, rfl⟩, ⟨30, rfl, by decide⟩, ⟨_, rfl⟩, ⟨_, rfl⟩, ⟨_, rfl, by decide⟩⟩,
    ⟨⟨by decide, by decide, by decide, rfl⟩, ⟨40, rfl, by decide⟩, ⟨_, rfl⟩, ⟨_, rfl⟩, ⟨_, rfl, by decide⟩⟩,
    by simp⟩

theorem remains_sampleEvents : sampleEvents.flatMap remains = [.int 443] := by
  simp [sampleEvents, remains, note, loneIn, loneItems, loneEntries, isBare]

theorem recent_writeAll_sample : ∃ log, writeAll "" sampleEvents = .ok log ∧
    recent log .null .null (.nat 5) = .ok [.int 443] ∧
      ∃ f, recent log (.text "scan") .null (.nat 5) = .error f := by
  obtain ⟨log, hwrite, hall, -, hasked⟩ := recent_writeAll sampleEvents_loggable (show 0 < 5 by decide)
  rw [remains_sampleEvents] at hall hasked
  exact ⟨log, hwrite, hall .null .null rfl rfl, (hasked (.text "scan") .null (.inl rfl)).2 (by simp)⟩

/-- An event that was just written is not among the recent ones. -/
theorem recent_without_event : ∃ e log, writeAll "" [e] = .ok log ∧ e.Loggable ∧
    recent log .null .null (.nat 1) = .ok [] ∧ recent log e.kind .null (.nat 1) = .ok [] := by
  have hfirst : ∀ e ∈ sampleEvents.take 1, e.Loggable := fun e he => sampleEvents_loggable e (List.mem_of_mem_take he)
  obtain ⟨log, hwrite, hreturn, hreads⟩ := writeAll_eq "" hfirst
  have hnone : (sampleEvents.take 1).flatMap Event.remains = [] := by
    simp [sampleEvents, Event.remains, Event.note, loneIn, loneEntries]
  rw [hnone] at hreads
  rw [String.empty_append] at hwrite
  refine ⟨_, log, hwrite, hfirst _ List.mem_cons_self, ?_, ?_⟩
  · rw [recent_eq hreturn]
    exact collect_of_reads rfl rfl hreads Nat.one_pos
  · rw [recent_eq hreturn]
    exact (collect_of_asked (.inl rfl) hreads (by simp) _ _).1 rfl

end CodeAudit.Journal

import CodeAudit.Proofs.JsonLine

/-! What is read from JSON text is a document, so it can be written down and is read back. The text
closes all the brackets that it opens outside strings. -/

namespace CodeAudit.Json

open List

theorem digitsValue_lt {ds : Chars} (h : AllDigits ds) : digitsValue ds < 10 ^ ds.length := by
  induction ds using List.reverseRecOn with
  | nil => simp [digitsValue]
  | append_singleton ds c ih =>
    have hc : c.toNat - 48 < 10 := by
      have hdigit := h c (by simp)
      simp only [Char.isDigit, Bool.and_eq_true, decide_eq_true_eq] at hdigit
      have := UInt32.le_iff_toNat_le.mp hdigit.2
      change c.toNat ≤ 57 at this
      omega
    have hlt := ih fun d hd => h d (by simp [hd])
    have hone : digitsValue [c] = c.toNat - 48 := by simp [digitsValue]
    rw [digitsValue_append, length_append, length_singleton]
    omega

variable {s : Chars}

theorem wholePart_eq {whole rest : Chars} (h : wholePart s = some (whole, rest)) :
    AllDigits whole ∧ whole ≠ [] := by
  unfold wholePart at h
  split at h
  · cases h
    exact ⟨by simp [AllDigits], by simp⟩
  · dsimp only at h
    split_ifs at h with hempty
    cases h
    exact ⟨fun c hc => (mem_takeWhile_imp hc), by simpa using hempty⟩

variable {v : Value} {s rest : Chars}

theorem isDocument_of_number? (h : number? s = some (.ok (v, rest))) (levels : Nat) : isDocument levels v := by
  unfold number? at h
  generalize signPart s = sign at h
  cases hw : wholePart sign.2 with
  | none => simp [hw] at h
  | some parts =>
    obtain ⟨whole, tail⟩ := parts
    obtain ⟨hdigits, hne⟩ := wholePart_eq hw
    have hcount : (Nat.toDigits 10 (digitsValue whole)).length ≤ whole.length :=
      (Nat.length_toDigits_le_iff (by decide) (length_pos_iff.mpr hne)).mpr (digitsValue_lt hdigits)
    simp only [hw] at h
    split_ifs at h with hwhole hlong hsign
    · cases h
    · cases h
      simpa [isDocument] using hcount.trans (Nat.not_lt.mp hlong)
    · cases h
      simpa [isDocument] using hcount.trans (Nat.not_lt.mp hlong)
    · cases h
      rfl

theorem scalar_cases (h : scalar s = .ok (v, rest)) :
    (∃ w ∈ wordValues, s = w.1.toList ++ rest ∧ w.2 = v) ∨ number? s = some (.ok (v, rest)) := by
  unfold scalar at h
  dsimp only at h
  split at h
  · next r hr =>
    rcases Option.or_eq_some_iff.mp hr with hword | ⟨-, hnumber⟩
    · obtain ⟨w, hw, hrest⟩ := exists_of_findSome?_eq_some hword
      obtain ⟨after, hafter, rfl⟩ := Option.map_eq_some_iff.mp hrest
      cases h
      exact .inl ⟨w, hw, Chars.afterPrefix_eq_some_iff.mp hafter, rfl⟩
    · exact .inr (h ▸ hnumber)
  · cases h

theorem isDocument_of_scalar (h : scalar s = .ok (v, rest)) (levels : Nat) : isDocument levels v := by
  rcases scalar_cases h with ⟨w, hw, -, rfl⟩ | hnumber
  · simp only [wordValues, mem_cons, not_mem_nil, or_false] at hw
    rcases hw with rfl | rfl | rfl | rfl | rfl | rfl <;> rfl
  · exact isDocument_of_number? hnumber levels

/-! Brackets outside strings. -/

structure Scan where
  quoted : Bool
  escaped : Bool
  opened : Int

def Scan.step (s : Scan) (c : Char) : Scan :=
  if s.escaped then { s with escaped := false }
  else if c = '"' then { s with quoted := !s.quoted }
  else if s.quoted then { s with escaped := c == '\\' }
  else if c = '[' ∨ c = '\x7b' then { s with opened := s.opened + 1 }
  else if c = ']' ∨ c = '\x7d' then { s with opened := s.opened - 1 }
  else s

/-- The text leads from inside or outside a string to inside or outside one, and opens so many
brackets more than it closes. -/
def Leads (a b : Bool) (k : Int) (t : Chars) : Prop := ∀ n, t.foldl Scan.step ⟨a, false, n⟩ = ⟨b, false, n + k⟩

abbrev Leaves (k : Int) (t : Chars) : Prop := Leads false false k t

def IsPlain (c : Char) : Prop := c ≠ '"' ∧ c ≠ '[' ∧ c ≠ '\x7b' ∧ c ≠ ']' ∧ c ≠ '\x7d'

theorem leads_nil (a : Bool) : Leads a a 0 [] := fun n => by simp

variable {a b : Bool} {k : Int} {t : Chars} {j : Int}

theorem Leads.append {c : Bool} (hs : Leads a b j s) (ht : Leads b c k t) : Leads a c (j + k) (s ++ t) := by
  intro n
  rw [foldl_append, hs, ht, add_assoc]

theorem Leads.unique (h : Leads a b j t) (h' : Leads a b k t) : j = k := by
  have hn := (h 0).symm.trans (h' 0)
  simpa using congrArg Scan.opened hn

theorem leaves_plain (h : ∀ c ∈ t, IsPlain c) : Leaves 0 t := by
  intro n
  induction t with
  | nil => simp
  | cons c rest ih =>
    obtain ⟨hquote, hopen, hopen', hclose, hclose'⟩ := h c (by simp)
    have hstep : Scan.step ⟨false, false, n⟩ c = ⟨false, false, n⟩ := by
      simp [Scan.step, hquote, hopen, hopen', hclose, hclose']
    rw [foldl_cons, hstep]
    exact ih fun d hd => h d (by simp [hd])

variable {c : Char}

theorem leaves_open (h : c = '[' ∨ c = '\x7b') : Leaves 1 [c] := by
  intro n
  rcases h with rfl | rfl <;> rfl

theorem leaves_close (h : c = ']' ∨ c = '\x7d') : Leaves (-1) [c] := by
  intro n
  rcases h with rfl | rfl <;> rfl

variable {c : Char}

theorem isPlain_of_space (h : isSpace c) : IsPlain c := by
  simp only [isSpace, Bool.or_eq_true, beq_iff_eq] at h
  rcases h with ((rfl | rfl) | rfl) | rfl <;> simp [IsPlain]

theorem isPlain_of_digit (h : c.isDigit) : IsPlain c := by
  refine ⟨?_, ?_, ?_, ?_, ?_⟩ <;> rintro rfl <;> simp [Char.isDigit] at h

/-! What the reader takes in. -/

def Passes (a b : Bool) (k : Int) (s rest : Chars) : Prop := ∃ used, s = used ++ rest ∧ Leads a b k used

abbrev Takes (k : Int) (s rest : Chars) : Prop := Passes false false k s rest

theorem Passes.refl (a : Bool) (s : Chars) : Passes a a 0 s s := ⟨[], rfl, leads_nil a⟩

theorem Passes.trans {c : Bool} (h : Passes a b j s t) (h' : Passes b c k t rest) : Passes a c (j + k) s rest := by
  obtain ⟨used, rfl, hused⟩ := h
  obtain ⟨more, rfl, hmore⟩ := h'
  exact ⟨used ++ more, (append_assoc used more rest).symm, hused.append hmore⟩

theorem Passes.after {c : Bool} (h : Passes a b 0 s t) (h' : Passes b c k t rest) : Passes a c k s rest := by
  simpa using h.trans h'

theorem takes_cons (h : IsPlain c) (s : Chars) : Takes 0 (c :: s) s := ⟨[c], rfl, leaves_plain (by simpa using h)⟩

theorem takes_skip (s : Chars) : Takes 0 s (skip s) :=
  ⟨s.takeWhile isSpace, takeWhile_append_dropWhile.symm,
    leaves_plain fun _ hc => isPlain_of_space (mem_takeWhile_imp hc)⟩

theorem takes_digits (s : Chars) : Takes 0 s (s.dropWhile Char.isDigit) :=
  ⟨s.takeWhile Char.isDigit, takeWhile_append_dropWhile.symm,
    leaves_plain fun _ hc => isPlain_of_digit (mem_takeWhile_imp hc)⟩

theorem takes_signPart (s : Chars) : Takes 0 s (signPart s).2 := by
  unfold signPart
  split
  · exact takes_cons (by simp [IsPlain]) _
  · exact Passes.refl false s

theorem takes_wholePart {whole rest : Chars} (h : wholePart s = some (whole, rest)) : Takes 0 s rest := by
  unfold wholePart at h
  split at h
  · cases h
    exact takes_cons (by simp [IsPlain]) _
  · dsimp only at h
    split_ifs at h
    cases h
    exact takes_digits s

theorem takes_fractionPart (s : Chars) : Takes 0 s (fractionPart s).2 := by
  unfold fractionPart
  split
  · dsimp only
    split_ifs
    · exact Passes.refl false _
    · exact (takes_cons (by simp [IsPlain]) _).after (takes_digits _)
  · exact Passes.refl false s

theorem takes_exponentPart (s : Chars) : Takes 0 s (exponentPart s).2 := by
  unfold exponentPart
  split
  · next c rest =>
    split_ifs with hc
    · have hmark : Takes 0 (c :: rest) rest := takes_cons (by rcases hc with rfl | rfl <;> simp [IsPlain]) rest
      have hsign (p : Prop) [Decidable p] (x : Int) {t : Chars} (ht : Takes 0 rest t) :
          Takes 0 (c :: rest) (if p then (none, c :: rest) else (some x, t.dropWhile Char.isDigit)).2 := by
        split_ifs
        · exact Passes.refl false _
        · exact hmark.after (ht.after (takes_digits t))
      apply hsign
      split
      · exact takes_cons (by simp [IsPlain]) _
      · exact takes_cons (by simp [IsPlain]) _
      · exact Passes.refl false rest
    · exact Passes.refl false _
  · exact Passes.refl false _

theorem takes_number? (h : number? s = some (.ok (v, rest))) : Takes 0 s rest := by
  unfold number? at h
  dsimp only at h
  split at h
  · cases h
  · next whole after hwhole =>
    have hall : Takes 0 s (exponentPart (fractionPart after).2).2 :=
      ((takes_signPart s).after (takes_wholePart hwhole)).after
        ((takes_fractionPart after).after (takes_exponentPart _))
    split at h
    · split at h <;> cases h
      exact hall
    · cases h
      exact hall

theorem takes_scalar (h : scalar s = .ok (v, rest)) : Takes 0 s rest := by
  rcases scalar_cases h with ⟨w, hw, hs, -⟩ | hnumber
  · refine ⟨w.1.toList, hs, leaves_plain ?_⟩
    simp only [wordValues, mem_cons, not_mem_nil, or_false] at hw
    rcases hw with rfl | rfl | rfl | rfl | rfl | rfl <;> simp [IsPlain]
  · exact takes_number? hnumber

theorem passes_quote (a : Bool) (s : Chars) : Passes a (!a) 0 ('"' :: s) s := ⟨['"'], rfl, fun n => by
  cases a <;> simp [Scan.step]⟩

theorem passes_inside (h : c ≠ '"' ∧ c ≠ '\\') (s : Chars) : Passes true true 0 (c :: s) s :=
  ⟨[c], rfl, fun n => by simp [Scan.step, h.1, h.2]⟩

theorem passes_escape (c : Char) (s : Chars) : Passes true true 0 ('\\' :: c :: s) s :=
  ⟨['\\', c], rfl, fun n => by simp [Scan.step]⟩

theorem passes_hexQuad {unit : Nat} (h : hexQuad s = some (unit, rest)) : Passes true true 0 s rest := by
  have hdigit : ∀ {c n}, hexValue? c = some n → c ≠ '"' ∧ c ≠ '\\' := by
    intro c n hc
    constructor <;> rintro rfl <;> simp [hexValue?] at hc
  unfold hexQuad at h
  split at h
  · simp only [Option.bind_eq_bind, Option.bind_eq_some_iff] at h
    obtain ⟨w, ha, x, hb, y, hc, z, hd, hok⟩ := h
    cases hok
    exact (passes_inside (hdigit ha) _).after ((passes_inside (hdigit hb) _).after
      ((passes_inside (hdigit hc) _).after (passes_inside (hdigit hd) _)))
  · cases h

theorem passes_joinUnits (unit : Nat) (s : Chars) : Passes true true 0 s (joinUnits unit s).2 := by
  unfold joinUnits
  split_ifs
  · split
    · next more =>
      split
      · next low after hlow =>
        split_ifs
        · exact (passes_escape 'u' more).after (passes_hexQuad hlow)
        · exact Passes.refl true _
      · exact Passes.refl true _
    · exact Passes.refl true _
  · exact Passes.refl true _
  · exact Passes.refl true _

variable {fuel : Nat}

theorem passes_stringBody {start : Nat} {acc rest : Chars} {t : String}
    (h : stringBody start fuel acc s = .ok (t, rest)) : Passes true false 0 s rest := by
  fun_induction stringBody start fuel acc s with
  | case1 => cases h
  | case2 => cases h
  | case3 =>
    cases h
    exact passes_quote true _
  | case4 => cases h
  | case5 fuel acc more unit after hquad c rest' hjoin ih =>
    have hjoined := passes_joinUnits unit after
    rw [hjoin] at hjoined
    exact (passes_escape 'u' more).after ((passes_hexQuad hquad).after (hjoined.after (ih h)))
  | case6 => cases h
  | case7 fuel acc c more _ d _ ih => exact (passes_escape c more).after (ih h)
  | case8 => cases h
  | case9 => cases h
  | case10 fuel acc c more hquote hslash _ ih => exact (passes_inside ⟨hquote, hslash⟩ more).after (ih h)

theorem takes_open (h : c = '[' ∨ c = '\x7b') (s : Chars) : Takes 1 (c :: s) s := ⟨[c], rfl, leaves_open h⟩

theorem takes_close (h : c = ']' ∨ c = '\x7d') (s : Chars) : Takes (-1) (c :: s) s := ⟨[c], rfl, leaves_close h⟩

theorem takes_skip_to {after : Chars} (h : skip s = c :: after) : Takes 0 s (c :: after) := h ▸ takes_skip s

/-! What it makes of a text. -/

/-- What the reader makes of a text with this fuel: documents of as many levels as it has room for.
It closes every bracket that it opens, and after the first item or entry also the one that was open
before. -/
structure Reads (fuel : Nat) : Prop where
  value {levels : Nat} {s rest : Chars} {v : Value} (h : value fuel levels s = .ok (v, rest)) :
    isDocument levels v = true ∧ Takes 0 s rest
  items {levels : Nat} {s rest : Chars} {acc vs : List Value} (h : items fuel levels acc s = .ok (vs, rest))
    (hacc : ∀ v ∈ acc, isDocument levels v = true) : (∀ v ∈ vs, isDocument levels v = true) ∧ Takes (-1) s rest
  entries {levels : Nat} {s rest : Chars} {acc es : Entries} (h : entries fuel levels acc s = .ok (es, rest))
    (hacc : ∀ e ∈ acc, isDocument levels e.2 = true) :
    (∀ e ∈ es, isDocument levels e.2 = true) ∧ Takes (-1) s rest

variable {levels : Nat}

theorem Reads.next_value (ih : Reads fuel)
    (h : Json.value (fuel + 1) levels s = .ok (v, rest)) : isDocument levels v ∧ Takes 0 s rest := by
  rw [Json.value.eq_def] at h
  dsimp only at h
  split at h
  · next text =>
    obtain ⟨⟨t, after⟩, hbody, hok⟩ := bind_eq_ok_iff.mp h
    cases hok
    exact ⟨rfl, (passes_quote false text).after (passes_stringBody hbody)⟩
  · next inner =>
    have hopen := takes_open (.inl rfl) inner
    cases levels with
    | zero => cases h
    | succ levels =>
      dsimp only at h
      split at h
      · next hskip =>
        cases h
        exact ⟨by simp [isDocument, areDocuments],
          hopen.trans ((takes_skip_to hskip).after (takes_close (.inl rfl) _))⟩
      · obtain ⟨⟨vs, after⟩, hvs, hok⟩ := bind_eq_ok_iff.mp h
        cases hok
        obtain ⟨hdocs, htakes⟩ := ih.items hvs (by simp)
        exact ⟨by simpa [isDocument, areDocuments_iff] using hdocs, hopen.trans ((takes_skip inner).after htakes)⟩
  · next inner =>
    have hopen := takes_open (.inr rfl) inner
    cases levels with
    | zero => cases h
    | succ levels =>
      dsimp only at h
      split at h
      · next hskip =>
        cases h
        exact ⟨by simp [isDocument, entriesAreDocuments],
          hopen.trans ((takes_skip_to hskip).after (takes_close (.inr rfl) _))⟩
      · obtain ⟨⟨es, after⟩, hes, hok⟩ := bind_eq_ok_iff.mp h
        cases hok
        obtain ⟨hdocs, htakes⟩ := ih.entries hes (by simp)
        refine ⟨isDocument_object.mpr
          ⟨Nat.succ_pos levels, Entries.Distinct.merge (by simp [Entries.Distinct]) es, ?_⟩,
          hopen.trans ((takes_skip inner).after htakes)⟩
        intro e he
        exact hdocs e ((Entries.mem_merge he).resolve_left (by simp))
  · exact ⟨isDocument_of_scalar h levels, takes_scalar h⟩

theorem takes_comma (s : Chars) : Takes 0 (',' :: s) (skip s) :=
  (takes_cons (by simp [IsPlain]) s).after (takes_skip s)

theorem Reads.next_items (ih : Reads fuel) {acc vs : List Value}
    (h : Json.items (fuel + 1) levels acc s = .ok (vs, rest)) (hacc : ∀ v ∈ acc, isDocument levels v) :
    (∀ v ∈ vs, isDocument levels v) ∧ Takes (-1) s rest := by
  obtain ⟨⟨v, after⟩, hv, hnext⟩ := bind_eq_ok_iff.mp h
  obtain ⟨hdoc, htakes⟩ := ih.value hv
  have hall : ∀ w ∈ v :: acc, isDocument levels w := forall_mem_cons.mpr ⟨hdoc, hacc⟩
  dsimp only at hnext
  split at hnext
  · next hskip =>
    cases hnext
    exact ⟨fun w hw => hall w (mem_reverse.mp hw),
      htakes.after ((takes_skip_to hskip).after (takes_close (.inl rfl) _))⟩
  · next hskip =>
    obtain ⟨hdocs, hrest⟩ := ih.items hnext hall
    exact ⟨hdocs, htakes.after ((takes_skip_to hskip).after ((takes_comma _).after hrest))⟩
  · cases hnext

theorem Reads.next_entries (ih : Reads fuel) {acc es : Entries}
    (h : Json.entries (fuel + 1) levels acc s = .ok (es, rest)) (hacc : ∀ e ∈ acc, isDocument levels e.2) :
    (∀ e ∈ es, isDocument levels e.2) ∧ Takes (-1) s rest := by
  rw [Json.entries.eq_def] at h
  dsimp only at h
  split at h
  · next text =>
    obtain ⟨⟨key, after⟩, hbody, hkey⟩ := bind_eq_ok_iff.mp h
    have hname : Takes 0 ('"' :: text) after := (passes_quote false text).after (passes_stringBody hbody)
    split at hkey
    · next hcolon =>
      obtain ⟨⟨v, after⟩, hv, hnext⟩ := bind_eq_ok_iff.mp hkey
      obtain ⟨hdoc, htakes⟩ := ih.value hv
      have hall : ∀ e ∈ (key, v) :: acc, isDocument levels e.2 := forall_mem_cons.mpr ⟨hdoc, hacc⟩
      have hentry := hname.after ((takes_skip_to hcolon).after ((takes_cons (by simp [IsPlain]) _).after
        ((takes_skip _).after htakes)))
      split at hnext
      · next hskip =>
        cases hnext
        exact ⟨fun e he => hall e (mem_reverse.mp he),
          hentry.after ((takes_skip_to hskip).after (takes_close (.inr rfl) _))⟩
      · next hskip =>
        obtain ⟨hdocs, hrest⟩ := ih.entries hnext hall
        exact ⟨hdocs, hentry.after ((takes_skip_to hskip).after ((takes_comma _).after hrest))⟩
      · cases hnext
    · cases hkey
  · cases h

theorem reads (fuel : Nat) : Reads fuel := by
  induction fuel with
  | zero =>
    refine ⟨fun h => ?_, fun h => ?_, fun h => ?_⟩
    · cases h
    · cases h
    · cases h
  | succ fuel ih => exact ⟨ih.next_value, ih.next_items, ih.next_entries⟩

variable {text : String}

theorem exists_value_of_parse (h : parse text = .ok v) :
    ∃ rest, value (2 * text.toList.length + 2) maxDepth (skip text.toList) = .ok (v, rest) ∧ skip rest = [] := by
  unfold parse at h
  dsimp only at h
  cases hv : value (2 * text.toList.length + 2) maxDepth (skip text.toList) with
  | error p =>
    rw [hv] at h
    split_ifs at h <;> cases h
  | ok r =>
    obtain ⟨w, rest⟩ := r
    rw [hv] at h
    split_ifs at h
    · cases h
    · simp only [ok_bind] at h
      split at h
      · next hrest =>
        cases h
        exact ⟨rest, rfl, hrest⟩
      · cases h

theorem isDocument_of_parse (h : parse text = .ok v) : isDocument maxDepth v := by
  obtain ⟨rest, hread, -⟩ := exists_value_of_parse h
  exact ((reads _).value hread).1

theorem isDocument_member {w : Value} {key : String} (hv : isDocument levels v)
    (h : v.member key = .ok w) : 0 < levels ∧ isDocument (levels - 1) w := by
  cases v with
  | object entries =>
    obtain ⟨hlevels, -, hentries⟩ := isDocument_object.mp hv
    cases hfound : entries.lookup key with
    | none => simp [Value.member, hfound] at h
    | some found =>
      obtain rfl : found = w := by simpa [Value.member, hfound] using h
      obtain ⟨before, after, rfl, -⟩ := lookup_eq_some_iff.mp hfound
      exact ⟨hlevels, hentries (key, found) (by simp)⟩
  | mapping pairs => simp [isDocument] at hv
  | _ => simp [Value.member] at h

theorem isDocument_of_mem_parts {item : Value} {items : List Value} (hv : isDocument levels v)
    (h : v.parts = .ok items) (hitem : item ∈ items) : isDocument (levels - 1) item := by
  cases v with
  | list vs =>
    cases h
    simp only [isDocument, Bool.and_eq_true, areDocuments_iff] at hv
    exact hv.2 item hitem
  | object entries =>
    cases h
    obtain ⟨e, -, rfl⟩ := mem_map.mp hitem
    rfl
  | text s =>
    cases h
    obtain ⟨c, -, rfl⟩ := mem_map.mp hitem
    rfl
  | mapping pairs => cases hv
  | _ => cases h

theorem leaves_of_parse (h : parse text = .ok v) : Leaves 0 text.toList := by
  obtain ⟨rest, hread, hrest⟩ := exists_value_of_parse h
  have hall := (takes_skip text.toList).after (((reads _).value hread).2.after (takes_skip rest))
  rw [hrest] at hall
  obtain ⟨used, hused, hleaves⟩ := hall
  rwa [hused, append_nil]

end CodeAudit.Json

import CodeAudit.Proofs.JsonText

/-! A value written without an indent stands on one line, and lines that were put one after another
are cut apart again. -/

namespace CodeAudit

open List

/-! Cutting a text. -/

namespace Chars

theorem splitOn_eq (sep : Char) (s : Chars) : splitOn sep s = List.splitOn sep s := by
  induction s with
  | nil => rfl
  | cons c s ih =>
    obtain ⟨piece, pieces, hs⟩ := exists_cons_of_ne_nil (List.splitOn_ne_nil sep s)
    simp [splitOn, ih, splitOn_cons_eq_if_modifyHead, hs]

variable {s : Chars} {sep : Char}

theorem splitOn_append (sep : Char) (s t : Chars) :
    splitOn sep (s ++ sep :: t) = splitOn sep s ++ splitOn sep t := by
  simp only [splitOn_eq, splitOn_append_cons_self]

theorem splitOn_of_notMem (h : sep ∉ s) : splitOn sep s = [s] := (splitOn_eq sep s).trans (splitOn_eq_singleton h)

theorem unifyNewlines_of_notMem (h : '\r' ∉ s) : unifyNewlines s = s := by
  induction s with
  | nil => rfl
  | cons c s ih =>
    rw [mem_cons, not_or] at h
    rw [unifyNewlines, ih h.2]
    · rintro rest rfl -
      exact h.1 rfl
    · exact fun hc => h.1 hc.symm

theorem splitOn_injective (sep : Char) : Function.Injective (splitOn sep) :=
  Function.LeftInverse.injective (g := intercalate [sep]) fun s => by rw [splitOn_eq, List.intercalate_splitOn]

theorem splitOn_intercalate (sep : Char) (first : Chars) (rest : List Chars) :
    splitOn sep (intercalate [sep] (first :: rest)) = (first :: rest).flatMap (splitOn sep) := by
  induction rest generalizing first with
  | nil => simp
  | cons next rest ih =>
    rw [intercalate_cons_cons, append_assoc, singleton_append, splitOn_append, ih]
    rfl

theorem notMem_of_mem_splitOn {s piece : Chars} (h : piece ∈ splitOn sep s) : sep ∉ piece := by
  rw [splitOn_eq] at h
  induction s generalizing piece with
  | nil => simp_all
  | cons c s ih =>
    obtain ⟨first, rest, hs⟩ := exists_cons_of_ne_nil (List.splitOn_ne_nil sep s)
    rw [hs] at ih
    rw [splitOn_cons_eq_if_modifyHead, hs] at h
    split_ifs at h with hc <;> rcases mem_cons.mp h with rfl | h
    · simp
    · exact ih h
    · have hfirst := ih mem_cons_self
      have hne : sep ≠ c := fun he => hc (by simp [he])
      simp [hfirst, hne]
    · exact ih (mem_cons_of_mem first h)

end Chars

namespace Json

/-! Texts without line ends. -/

def Inline (s : Chars) : Prop := ∀ c ∈ s, c ≠ '\n' ∧ c ≠ '\r'

@[simp]
theorem inline_nil : Inline [] := by simp [Inline]

@[simp]
theorem inline_cons {c : Char} {s : Chars} : Inline (c :: s) ↔ (c ≠ '\n' ∧ c ≠ '\r') ∧ Inline s := by
  simp [Inline]

@[simp]
theorem inline_append {s t : Chars} : Inline (s ++ t) ↔ Inline s ∧ Inline t := by
  simp only [Inline, forall_mem_append]

theorem AllDigits.inline {ds : Chars} (h : AllDigits ds) : Inline ds := by
  intro c hc
  have hdigit := h c hc
  constructor <;>
    · rintro rfl
      revert hdigit
      decide

theorem inline_natText (n : Nat) : Inline (natText n).toList := by
  rw [natText, String.toList_ofList]
  exact (allDigits_toDigits n).inline

theorem inline_intText (n : Int) : Inline (intText n).toList := by
  unfold intText
  split_ifs <;> simp [inline_natText]

theorem inline_layout (d : Decimal) : Inline d.layout.toList := by
  have hchars := (allDigits_toDigits d.trim.digits).inline
  have hzeros (n : Nat) : Inline (replicate n '0') := (allDigits_zeros n).inline
  have htake {s : Chars} (hs : Inline s) (n : Nat) : Inline (s.take n) := fun c hc => hs c (mem_of_mem_take hc)
  have hdrop {s : Chars} (hs : Inline s) (n : Nat) : Inline (s.drop n) := fun c hc => hs c (mem_of_mem_drop hc)
  unfold Decimal.layout Decimal.zeros
  dsimp only
  split_ifs <;> simp [htake, hdrop, hchars, hzeros, inline_natText, -drop_one]

theorem inline_floatText (x : Float) : Inline (floatText x).toList := by
  unfold floatText
  cases Dyadic.ofFloat? x with
  | none =>
    split_ifs <;> simp
  | some d =>
    dsimp only
    split_ifs <;> simp [inline_layout]

theorem inline_floatWord (x : Float) : Inline (floatWord x).toList := by
  unfold floatWord
  split_ifs <;> simp [inline_floatText]

theorem inline_hexText {n : Nat} (h : n < 0x10000) : Inline (hexText 4 n).toList := by
  have hdigit : ∀ m < 16, m.digitChar ≠ '\n' ∧ m.digitChar ≠ '\r' := by decide
  rw [hexText_four h]
  simp only [inline_cons, inline_nil, and_true]
  exact ⟨hdigit _ (by omega), hdigit _ (by omega), hdigit _ (by omega), hdigit _ (by omega)⟩

theorem inline_unitEscape (c : Char) : Inline (unitEscape c).toList := by
  have hvalid := toNat_valid c
  by_cases h : c.toNat < 0x10000
  · rw [unitEscape_toList h]
    simp [inline_hexText h]
  · have hhigh : highUnit c < 0x10000 := by unfold highUnit; omega
    have hlow : lowUnit c < 0x10000 := by unfold lowUnit; omega
    rw [unitEscape_pair_toList h]
    simp [inline_hexText hhigh, inline_hexText hlow]

theorem inline_charText (ascii : Bool) (c : Char) : Inline (charText ascii c).toList := by
  rcases charText_cases ascii c with ⟨e, -, he, htext⟩ | htext | ⟨⟨-, -, hlow⟩, htext⟩
  · have hletter : e ≠ '\n' ∧ e ≠ '\r' := by
      constructor <;>
        · rintro rfl
          cases he
    simp [htext, hletter]
  · rw [htext]
    exact inline_unitEscape c
  · have hchar : c ≠ '\n' ∧ c ≠ '\r' := by
      constructor <;>
        · rintro rfl
          revert hlow
          decide
    simp [htext, hchar]

theorem inline_stringText (ascii : Bool) (s : String) : Inline (stringText ascii s).toList := by
  rw [stringText_toList]
  simp only [inline_cons, inline_append, inline_nil, and_true]
  refine ⟨by decide, ?_, by decide⟩
  intro c hc
  obtain ⟨d, -, hd⟩ := mem_flatMap.mp hc
  exact inline_charText ascii d c hd

variable {levels : Nat}

theorem areWritable_iff {vs : List Value} : areWritable levels vs ↔ ∀ v ∈ vs, isWritable levels v := by
  induction vs with
  | nil => simp [areWritable]
  | cons v vs ih => simp [areWritable, ih]

theorem entriesAreWritable_iff {es : Entries} : entriesAreWritable levels es ↔ ∀ e ∈ es, isWritable levels e.2 := by
  induction es with
  | nil => simp [entriesAreWritable]
  | cons e es ih => simp [entriesAreWritable, ih]

theorem isWritable_of_isDocument {v : Value} (h : isDocument levels v) : isWritable levels v := by
  induction levels using Nat.strongRecOn generalizing v with | ind levels ih =>
  cases v with
  | list items =>
    obtain ⟨hlevels, hitems⟩ := isDocument_list.mp h
    simp only [isWritable, Bool.and_eq_true, decide_eq_true_eq, areWritable_iff]
    exact ⟨hlevels, fun w hw => ih _ (Nat.sub_one_lt_of_lt hlevels) (hitems w hw)⟩
  | object entries =>
    obtain ⟨hlevels, -, hentries⟩ := isDocument_object.mp h
    simp only [isWritable, Bool.and_eq_true, decide_eq_true_eq, entriesAreWritable_iff]
    exact ⟨hlevels, fun e he => ih _ (Nat.sub_one_lt_of_lt hlevels) (hentries e he)⟩
  | _ => simp_all [isWritable, isDocument]

variable (style : Style)

section Characters

variable {P : Char → Prop} (hline : ∀ c, c ≠ '\n' ∧ c ≠ '\r' → P c) (hmargin : style.indent = none ∨ P '\n')

include hline hmargin

theorem forall_mem_margin (depth : Nat) : ∀ c ∈ style.margin depth, P c := by
  unfold Style.margin
  cases hi : style.indent with
  | none => simp
  | some width =>
    rw [forall_mem_cons]
    refine ⟨hmargin.resolve_left (by simp [hi]), fun c hc => ?_⟩
    rw [eq_of_mem_replicate hc]
    exact hline ' ' (by decide)

theorem forall_mem_gap (depth : Nat) : ∀ c ∈ style.gap depth, P c := by
  unfold Style.gap
  split
  · simpa using hline ' ' (by decide)
  · exact forall_mem_margin style hline hmargin depth

theorem forall_mem_bracket {depth : Nat} {opening closing : String} (hopening : ∀ c ∈ opening.toList, P c)
    (hclosing : ∀ c ∈ closing.toList, P c) {ts : List String} (h : ∀ t ∈ ts, ∀ c ∈ t.toList, P c) :
    ∀ c ∈ (bracket style depth opening closing ts).toList, P c := by
  have hgap := forall_mem_gap style hline hmargin
  have hlast := forall_mem_margin style hline hmargin
  cases ts with
  | nil => simpa [bracket, or_imp, forall_and] using ⟨hopening, hclosing⟩
  | cons t ts =>
    rw [bracket_toList]
    rw [forall_mem_cons] at h
    simp only [forall_mem_append]
    refine ⟨hopening, hlast _, h.1, ?_⟩
    replace h := h.2
    induction ts with
    | nil => exact forall_mem_append.mpr ⟨hlast _, hclosing⟩
    | cons u us ih =>
      rw [forall_mem_cons] at h
      simp only [itemTail, forall_mem_cons, forall_mem_append]
      exact ⟨hline ',' (by decide), hgap _, h.1, ih h.2⟩

theorem forall_mem_render (hsorted : style.sorted = false) {v : Value} {levels : Nat}
    (h : isDocument levels v) (depth : Nat) : ∀ c ∈ (render style depth v).toList, P c := by
  have hinline : ∀ {s : String}, Inline s.toList → ∀ c ∈ s.toList, P c := fun hs c hc => hline c (hs c hc)
  induction levels using Nat.strongRecOn generalizing v depth with | ind levels ih =>
  cases v with
  | null => exact hinline (by simp [render])
  | bool b => exact hinline (by cases b <;> simp [render])
  | int n => exact hinline (by simpa [render] using inline_intText n)
  | float x => exact hinline (by simpa [render] using inline_floatWord x)
  | text s => exact hinline (by simpa [render] using inline_stringText style.ascii s)
  | list items =>
    obtain ⟨hlevels, hitems⟩ := isDocument_list.mp h
    rw [render_list]
    refine forall_mem_bracket style hline hmargin (hinline (by simp)) (hinline (by simp)) fun t ht => ?_
    obtain ⟨w, hw, rfl⟩ := mem_map.mp ht
    exact ih _ (Nat.sub_one_lt_of_lt hlevels) (hitems w hw) _
  | object entries =>
    obtain ⟨hlevels, -, hentries⟩ := isDocument_object.mp h
    rw [render_object style depth hsorted]
    refine forall_mem_bracket style hline hmargin (hinline (by simp)) (hinline (by simp)) fun t ht => ?_
    obtain ⟨e, he, rfl⟩ := mem_map.mp ht
    rw [entryText, String.toList_append, forall_mem_append]
    refine ⟨hinline ?_, ih _ (Nat.sub_one_lt_of_lt hlevels) (hentries e he) _⟩
    simp [inline_stringText]
  | mapping pairs => simp [isDocument] at h
  | special s => simp [isDocument] at h

end Characters

theorem inline_render (hsorted : style.sorted = false) (hone : style.indent = none) {v : Value}
    (h : isDocument levels v) (depth : Nat) : Inline (render style depth v).toList :=
  forall_mem_render style (fun _ hc => hc) (.inl hone) hsorted h depth

theorem notMem_return_render (hsorted : style.sorted = false) {v : Value} (h : isDocument levels v)
    (depth : Nat) : '\r' ∉ (render style depth v).toList := fun hr =>
  forall_mem_render (P := (· ≠ '\r')) style (fun _ hc => hc.2) (.inr (by decide)) hsorted h depth _ hr rfl

end Json

end CodeAudit

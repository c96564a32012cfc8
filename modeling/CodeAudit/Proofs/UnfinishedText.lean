import CodeAudit.Proofs.JsonReading

/-! A file to which a value is written in pieces cannot be read if the writer stopped before the
end: a bracket is left open. A document does not stop the writer. -/

namespace CodeAudit.Json

open Draft List

/-! What the writer leaves behind. -/

namespace Draft

theorem append_eq {a : Draft} (h : a.whole) (b : Draft) : a ++ b = ⟨a.text ++ b.text, b.whole⟩ := if_pos h

theorem append_of_stopped {a : Draft} (h : a.whole = false) (b : Draft) : a ++ b = a := if_neg (by simp [h])

@[simp]
theorem whole_of (s : String) : (of s).whole := rfl

@[simp]
theorem whole_stopped : stopped.whole = false := rfl

@[simp]
theorem of_append_of (s t : String) : of s ++ of t = .of (s ++ t) := append_eq rfl _

@[simp]
theorem whole_append (a b : Draft) : (a ++ b).whole = (a.whole && b.whole) := by
  cases h : a.whole with
  | true => rw [append_eq h, Bool.true_and]
  | false => rw [append_of_stopped h, h, Bool.false_and]

/-- If it is whole, it leaves `k` brackets open; if the writer stopped, it is nothing or leaves at
least `m` open. -/
structure Holds (k m : Int) (d : Draft) : Prop where
  whole : d.whole = true → Leaves k d.text.toList
  stopped : d.whole = false → d.text = "" ∨ ∃ j, m ≤ j ∧ Leaves j d.text.toList

theorem holds_of {k : Int} {text : String} (h : Leaves k text.toList) (m : Int) : (of text).Holds k m :=
  ⟨fun _ => h, nofun⟩

theorem holds_stopped (k m : Int) : stopped.Holds k m := ⟨nofun, fun _ => .inl rfl⟩

theorem Holds.append {a b : Draft} {j k l m : Int} (ha : a.Holds j m) (hb : b.Holds k l) (hj : m ≤ j)
    (hl : m ≤ j + l) : (a ++ b).Holds (j + k) m := by
  cases h : a.whole with
  | false =>
    rw [append_of_stopped h]
    exact ⟨fun h' => absurd (h.symm.trans h') (by decide), ha.stopped⟩
  | true =>
    have hfirst := ha.whole h
    rw [append_eq h]
    refine ⟨fun hw => ?_, fun hw => .inr ?_⟩
    · simpa using hfirst.append (hb.whole hw)
    · rcases hb.stopped hw with hnone | ⟨i, hi, hleaves⟩
      · exact ⟨j, hj, by simpa [hnone] using hfirst⟩
      · exact ⟨j + i, by omega, by simpa using hfirst.append hleaves⟩

end Draft

section Drafts

variable (style : Style) (depth : Nat)

theorem lead_toList : (style.lead depth).toList = style.margin depth := by
  unfold Style.lead Style.margin
  cases style.indent <;> simp

theorem comma_toList : (style.comma depth).toList = ',' :: style.gap depth := by
  unfold Style.comma Style.gap
  cases h : style.indent <;> simp [lead_toList]

theorem leaves_lead : Leaves 0 (style.lead depth).toList :=
  leaves_plain fun c hc => isPlain_of_space (style.margin_spaces depth c (lead_toList style depth ▸ hc))

theorem leaves_comma : Leaves 0 (style.comma depth).toList := by
  rw [comma_toList]
  refine leaves_plain (forall_mem_cons.mpr ⟨by simp [IsPlain], fun c hc => ?_⟩)
  exact isPlain_of_space (style.gap_spaces depth c hc)

theorem leaves_opening {c : Char} (h : c = '[' ∨ c = '\x7b') (depth : Nat) :
    Leaves 1 (c :: (style.lead depth).toList) := by
  simpa using (leaves_open h).append (leaves_lead style depth)

theorem leaves_closing {c : Char} (h : c = ']' ∨ c = '\x7d') (depth : Nat) :
    Leaves (-1) ((style.lead depth).toList ++ [c]) := by
  simpa using (leaves_lead style depth).append (leaves_close h)

theorem holds_braces {d : Draft} (h : d.Holds 0 0) (depth : Nat) :
    (of ("\x7b" ++ style.lead (depth + 1)) ++ d ++ of (style.lead depth ++ "\x7d")).Holds 0 1 := by
  have hfirst : (of ("\x7b" ++ style.lead (depth + 1))).Holds 1 1 :=
    holds_of (by simpa using leaves_opening style (.inr rfl) (depth + 1)) 1
  have hlast : (of (style.lead depth ++ "\x7d")).Holds (-1) 0 :=
    holds_of (by simpa using leaves_closing style (.inr rfl) depth) 0
  exact (hfirst.append h (by decide) (by decide)).append hlast (by decide) (by decide)

variable {style}

theorem leaves_render (hsorted : style.sorted = false) {v : Value} {levels : Nat} (h : isDocument levels v)
    (depth : Nat) : Leaves 0 (render style depth v).toList := by
  have hread := value_render style hsorted v h (Nat.le_refl (2 * (render style depth v).toList.length))
    (show Ends [] by simp [Ends])
  obtain ⟨used, hused, hleaves⟩ := ((reads _).value hread).2
  rw [append_nil, append_nil] at hused
  rwa [hused]

theorem leaves_key (hsorted : style.sorted = false) {gap : String} (hgap : Leaves 0 gap.toList) (k : String) :
    Leaves 0 (gap ++ stringText style.ascii k ++ ": ").toList := by
  have hkey : Leaves 0 (render style 0 (.text k)).toList :=
    leaves_render hsorted (show isDocument 0 (.text k) from rfl) 0
  rw [render] at hkey
  simpa using (hgap.append hkey).append (leaves_plain (t := ": ".toList) (by simp [IsPlain]))

/-! An object is written as the pairs of its keys and values. -/

def keyed (e : String × Value) : Value × Value := (.text e.1, e.2)

theorem draft_object (levels depth : Nat) (es : Entries) :
    draft style levels depth (.object es) = draft style levels depth (.mapping (es.map keyed)) := by
  have hentries (levels depth : Nat) (gap : String) :
      draftEntries style levels depth gap es = draftPairs style levels depth gap (es.map keyed) := by
    induction es generalizing gap with
    | nil => rfl
    | cons e es ih =>
      rw [draftEntries, ih]
      rfl
  rw [draft, draft, hentries, isEmpty_map]

theorem isWritable_object (levels : Nat) (es : Entries) :
    isWritable levels (.object es) = isWritable levels (.mapping (es.map keyed)) := by
  have hentries (levels : Nat) : entriesAreWritable levels es = pairsAreWritable levels (es.map keyed) := by
    induction es with
    | nil => rfl
    | cons e es ih =>
      rw [entriesAreWritable, ih]
      rfl
  rw [isWritable, isWritable, hentries]

section Levels

variable {levels depth : Nat} (hvalue : ∀ v, (draft style levels depth v).Holds 0 1)

include hvalue

theorem draftItems_holds {items : List Value} (hne : items ≠ []) (gap : String) {k : Int}
    (hgap : Leaves k gap.toList) : (draftItems style levels depth gap items).Holds k k := by
  induction items generalizing gap k with
  | nil => exact absurd rfl hne
  | cons v rest ih =>
    have hfirst : (if isLong v then .stopped else of gap ++ draft style levels depth v).Holds k k := by
      split_ifs
      · exact holds_stopped k k
      · simpa using (holds_of hgap k).append (hvalue v) (by omega) (by omega)
    have hrest : (draftItems style levels depth (style.comma depth) rest).Holds 0 0 := by
      by_cases hlast : rest = []
      · rw [hlast]
        exact holds_of (leads_nil false) 0
      · exact ih hlast _ (leaves_comma style depth)
    rw [draftItems]
    simpa using hfirst.append hrest (by omega) (by omega)

theorem draftPairs_holds (hsorted : style.sorted = false) (pairs : List (Value × Value)) (gap : String)
    (hgap : Leaves 0 gap.toList) : (draftPairs style levels depth gap pairs).Holds 0 0 := by
  induction pairs generalizing gap with
  | nil => exact holds_of (leads_nil false) 0
  | cons e rest ih =>
    obtain ⟨k, v⟩ := e
    have hkey : (if isWritable 0 k then of (gap ++ stringText style.ascii (keyName k) ++ ": ")
        else .stopped).Holds 0 0 := by
      split_ifs
      · exact holds_of (leaves_key hsorted hgap _) 0
      · exact holds_stopped 0 0
    have hrest := ih _ (leaves_comma style depth)
    exact (hkey.append (hvalue v) (by decide) (by decide)).append hrest (by decide) (by decide)

end Levels

theorem draft_holds (hsorted : style.sorted = false) (v : Value) (levels depth : Nat) :
    (draft style levels depth v).Holds 0 1 := by
  induction levels using Nat.strongRecOn generalizing v depth with | ind levels ih =>
  have hscalar : isDocument 0 v → (of (render style depth v)).Holds 0 1 := fun hv =>
    holds_of (leaves_render hsorted hv depth) 1
  have hmapping (pairs : List (Value × Value)) : (draft style levels depth (.mapping pairs)).Holds 0 1 := by
    rw [draft]
    split_ifs with hlevels hempty
    · exact holds_stopped 0 1
    · exact holds_of (fun n => by simp [Scan.step]) 1
    · exact holds_braces style
        (draftPairs_holds (ih _ (Nat.sub_one_lt hlevels) · (depth + 1)) hsorted pairs "" (leads_nil false)) depth
  cases v with
  | null => exact hscalar rfl
  | bool b => exact hscalar rfl
  | float x => exact hscalar rfl
  | text s => exact hscalar rfl
  | special s => exact holds_stopped 0 1
  | int n =>
    change (if isLong (.int n) then stopped else .of (render style depth (.int n))).Holds 0 1
    split_ifs with hlong
    · exact holds_stopped 0 1
    · exact hscalar (by simpa [isLong, isDocument] using hlong)
  | list items =>
    rw [draft]
    split_ifs with hlevels hempty
    · exact holds_stopped 0 1
    · exact holds_of (fun n => by simp [Scan.step]) 1
    · have hitems := draftItems_holds (ih _ (Nat.sub_one_lt hlevels) · (depth + 1)) (by simpa using hempty)
        ("[" ++ style.lead (depth + 1)) (by simpa using leaves_opening style (.inl rfl) (depth + 1))
      have hlast : (of (style.lead depth ++ "]")).Holds (-1) 0 :=
        holds_of (by simpa using leaves_closing style (.inl rfl) depth) 0
      exact hitems.append hlast (by decide) (by decide)
  | object entries =>
    rw [draft_object]
    exact hmapping _
  | mapping pairs => exact hmapping pairs

theorem parse_of_stopped (hsorted : style.sorted = false) {v : Value} {levels depth : Nat}
    (h : (draft style levels depth v).whole = false) : ∃ f, parse (draft style levels depth v).text = .error f := by
  cases hparse : parse (draft style levels depth v).text with
  | error f => exact ⟨f, rfl⟩
  | ok w =>
    rcases (draft_holds hsorted v levels depth).stopped h with hnone | ⟨j, hj, hleaves⟩
    · rw [hnone] at hparse
      cases hparse
    · have hj0 := hleaves.unique (leaves_of_parse hparse)
      omega

section Whole

variable {levels depth : Nat} (hvalue : ∀ v, (draft style levels depth v).whole = isWritable levels v)

include hvalue

theorem draftItems_whole (items : List Value) (gap : String) :
    (draftItems style levels depth gap items).whole = areWritable levels items := by
  induction items generalizing gap with
  | nil => rfl
  | cons v rest ih =>
    rw [draftItems, areWritable, whole_append, ih, ← hvalue v]
    split_ifs with hlong
    · cases v <;> simp_all [isLong, draft]
    · simp

theorem draftPairs_whole (pairs : List (Value × Value)) (gap : String) :
    (draftPairs style levels depth gap pairs).whole = pairsAreWritable levels pairs := by
  induction pairs generalizing gap with
  | nil => rfl
  | cons e rest ih =>
    rw [draftPairs, pairsAreWritable]
    split_ifs with hkey <;> simp [hkey, hvalue, ih]

end Whole

theorem draft_whole (v : Value) (levels depth : Nat) : (draft style levels depth v).whole = isWritable levels v := by
  induction levels using Nat.strongRecOn generalizing v depth with | ind levels ih =>
  have hmapping (pairs : List (Value × Value)) :
      (draft style levels depth (.mapping pairs)).whole = isWritable levels (.mapping pairs) := by
    rw [draft, isWritable]
    split_ifs with hlevels hempty
    · simp [hlevels]
    · simp_all [pairsAreWritable, Nat.pos_of_ne_zero]
    · simp [draftPairs_whole (ih _ (Nat.sub_one_lt hlevels) · (depth + 1)), Nat.pos_of_ne_zero hlevels]
  cases v with
  | null | bool b | float x | text s | special s => rfl
  | int n =>
    change (if isLong (.int n) then stopped else .of (render style depth (.int n))).whole = _
    split_ifs with hlong
    · simpa [isLong, isWritable] using hlong
    · simpa [isLong, isWritable] using hlong
  | list items =>
    rw [draft, isWritable]
    split_ifs with hlevels hempty
    · simp [hlevels]
    · simp_all [areWritable, Nat.pos_of_ne_zero]
    · simp [draftItems_whole (ih _ (Nat.sub_one_lt hlevels) · (depth + 1)), Nat.pos_of_ne_zero hlevels]
  | object entries => rw [draft_object, isWritable_object, hmapping]
  | mapping pairs => exact hmapping pairs

def chained (comma : String) : String → List String → String
  | _, [] => ""
  | gap, t :: ts => gap ++ t ++ chained comma comma ts

theorem bracket_eq {opening closing : String} {ts : List String} (hne : ts ≠ []) :
    bracket style depth opening closing ts =
      chained (style.comma (depth + 1)) (opening ++ style.lead (depth + 1)) ts ++
      (style.lead depth ++ closing) := by
  have hchain (gap t : String) (ts : List String) :
      (chained (style.comma (depth + 1)) gap (t :: ts) ++ (style.lead depth ++ closing)).toList =
        gap.toList ++ (t.toList ++ itemTail (style.gap (depth + 1)) (style.margin depth ++ closing.toList) ts) := by
    induction ts generalizing gap t with
    | nil => simp [chained, itemTail, lead_toList]
    | cons u us ih =>
      have hnext := ih (style.comma (depth + 1)) u
      rw [comma_toList, String.toList_append] at hnext
      rw [chained, String.toList_append, String.toList_append, String.toList_append, append_assoc, hnext]
      simp [itemTail]
  obtain ⟨t, ts, rfl⟩ := exists_cons_of_ne_nil hne
  apply String.toList_injective
  rw [hchain, bracket_toList, String.toList_append, lead_toList, append_assoc]

section Documents

variable {levels depth : Nat}

theorem draftItems_of_documents {items : List Value}
    (h : ∀ v ∈ items, isDocument levels v ∧ draft style levels depth v = .of (render style depth v))
    (gap : String) :
    draftItems style levels depth gap items =
      .of (chained (style.comma depth) gap (items.map (render style depth))) := by
  induction items generalizing gap with
  | nil => rfl
  | cons v rest ih =>
    obtain ⟨⟨hdoc, hdraft⟩, hrest⟩ := forall_mem_cons.mp h
    have hlong : ¬ isLong v := by
      cases v <;> simp_all [isLong, isDocument]
    rw [draftItems, if_neg hlong, hdraft, ih hrest, of_append_of, of_append_of, map_cons, chained]

theorem draftEntries_of_documents {entries : Entries}
    (h : ∀ e ∈ entries, draft style levels depth e.2 = .of (render style depth e.2)) (gap : String) :
    draftEntries style levels depth gap entries =
      .of (chained (style.comma depth) gap (entries.map (entryText style depth))) := by
  induction entries generalizing gap with
  | nil => rfl
  | cons e rest ih =>
    obtain ⟨hdraft, hrest⟩ := forall_mem_cons.mp h
    rw [draftEntries, hdraft, ih hrest, of_append_of, of_append_of, map_cons, chained]
    simp [entryText, String.append_assoc]

end Documents

theorem draft_of_isDocument (hsorted : style.sorted = false) (v : Value) {levels : Nat} (h : isDocument levels v)
    (depth : Nat) : draft style levels depth v = .of (render style depth v) := by
  induction levels using Nat.strongRecOn generalizing v depth with | ind levels ih =>
  cases v with
  | null | bool b | float x | text s => rfl
  | int n =>
    change (if isLong (.int n) then stopped else .of (render style depth (.int n))) = _
    exact if_neg (by simpa [isLong, isDocument] using h)
  | list items =>
    obtain ⟨hlevels, hdocs⟩ := isDocument_list.mp h
    rw [draft, if_neg hlevels.ne', render_list]
    cases items with
    | nil => rfl
    | cons v rest =>
      rw [if_neg (by simp), draftItems_of_documents fun w hw =>
          ⟨hdocs w hw, ih _ (Nat.sub_one_lt_of_lt hlevels) w (hdocs w hw) (depth + 1)⟩,
        of_append_of, bracket_eq depth (by simp)]
  | object entries =>
    obtain ⟨hlevels, -, hdocs⟩ := isDocument_object.mp h
    rw [draft, if_neg hlevels.ne', render_object style depth hsorted]
    cases entries with
    | nil => rfl
    | cons e rest =>
      rw [if_neg (by simp), draftEntries_of_documents fun e he =>
          ih _ (Nat.sub_one_lt_of_lt hlevels) e.2 (hdocs e he) (depth + 1),
        of_append_of, of_append_of, bracket_eq depth (by simp)]
      simp [chained, String.append_assoc]
  | mapping pairs => simp [isDocument] at h
  | special s => simp [isDocument] at h

end Drafts

end CodeAudit.Json

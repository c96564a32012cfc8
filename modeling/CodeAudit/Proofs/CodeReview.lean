import CodeAudit.Proofs.JsonLine
import CodeAudit.Proofs.StatementLines
import CodeAudit.Review

/-! What a review of code tells: dangers, each with the line on which its match starts, and the
imports that are not used, each looked for as a pattern, whatever its name holds. The pattern of a
plain name is found where the name stands as a whole word. -/

namespace CodeAudit

open List Pattern

/-- Where two texts meet, the last piece of the first and the first piece of the second become
one. -/
theorem Chars.splitOn_meeting (sep : Char) (s t : Chars) : ∃ before start rest after,
    splitOn sep s = before ++ [start] ∧ splitOn sep t = rest :: after ∧
      splitOn sep (s ++ t) = before ++ (start ++ rest) :: after ∧ before.length = s.count sep := by
  induction s with
  | nil =>
    obtain ⟨rest, after, ht⟩ := exists_cons_of_ne_nil (splitOn_eq sep t ▸ splitOn_ne_nil sep t)
    exact ⟨[], [], rest, after, rfl, ht, ht, rfl⟩
  | cons c s ih =>
    obtain ⟨before, start, rest, after, hs, ht, hst, hcount⟩ := ih
    by_cases hc : c = sep
    · exact ⟨[] :: before, start, rest, after, by simp [splitOn, hc, hs], ht, by simp [splitOn, hc, hst],
        by simp [hc, hcount]⟩
    rw [← count_cons_of_ne hc] at hcount
    cases before with
    | nil => exact ⟨[], c :: start, rest, after, by simp [splitOn, hc, hs], ht, by simp [splitOn, hc, hst], hcount⟩
    | cons first before =>
      exact ⟨(c :: first) :: before, start, rest, after, by simp [splitOn, hc, hs], ht,
        by simp [splitOn, hc, hst], hcount⟩

section

variable {ε α : Type} {f : α → Except ε Bool} {as kept : List α}

theorem filterAuxM_of_ok {p : α → Bool} (h : ∀ a ∈ as, f a = .ok (p a)) :
    as.filterAuxM f kept = .ok ((as.filter p).reverse ++ kept) := by
  induction as generalizing kept with
  | nil => rfl
  | cons a as ih =>
    obtain ⟨ha, has⟩ := forall_mem_cons.mp h
    rw [filterAuxM, ha, ok_bind, ih has]
    cases hp : p a <;> simp [hp]

theorem exists_of_filterAuxM {bs : List α} (h : as.filterAuxM f kept = .ok bs) : ∀ a ∈ as, ∃ b, f a = .ok b := by
  induction as generalizing kept with
  | nil => simp
  | cons a as ih =>
    obtain ⟨b, hb, hrest⟩ := bind_eq_ok_iff.mp h
    exact forall_mem_cons.mpr ⟨⟨b, hb⟩, ih hrest⟩

end

namespace Pattern.Source

theorem isSign_of_word {c : Char} (hc : isWordChar c = true) : c ∉ "|)\\[*+?\x7b.^$(".toList := by
  intro hsign
  have hall : ("|)\\[*+?\x7b.^$(".toList.all fun d => !isWordChar d) = true := by decide +kernel
  simpa [hc] using all_eq_true.mp hall c hsign

theorem pieces_lit {c : Char} (hc : isWordChar c = true) (acc : List Piece) (fuel : Nat) (s : State)
    (rest : Chars) :
    (pieces { first := true } acc (fuel + 1)).run { s with rest := c :: rest } =
      (pieces { first := true } (⟨.lit c, true⟩ :: acc) fuel).run { s with rest } := by
  have hsign := isSign_of_word hc
  simp only [String.reduceToList, mem_cons, not_mem_nil, or_false, not_or] at hsign
  obtain ⟨_, _, _, _, _, _, _, _, _, _, _, _⟩ := hsign
  rw [pieces]
  simp [StateT.run_bind, forward]

theorem pieces_boundary (acc : List Piece) (fuel : Nat) (s : State) (rest : Chars) :
    (pieces { first := true } acc (fuel + 1)).run { s with rest := '\\' :: 'b' :: rest } =
      (pieces { first := true } (⟨.boundary, false⟩ :: acc) fuel).run { s with rest } := by
  rw [pieces]
  rfl

theorem pieces_end (acc : List Piece) (fuel : Nat) (s : State) :
    (pieces { first := true } acc (fuel + 1)).run { s with rest := [] } =
      .ok (all (acc.reverse.map (·.pattern)), { s with rest := [] }) := by
  rw [pieces]
  rfl

theorem pieces_word {w : Chars} (hw : w.all isWordChar) (acc : List Piece) (fuel : Nat) (s : State)
    (rest : Chars) :
    (pieces { first := true } acc (fuel + w.length)).run { s with rest := w ++ rest } =
      (pieces { first := true } ((w.map fun c => ⟨.lit c, true⟩).reverse ++ acc) fuel).run
        { s with rest } := by
  induction w generalizing acc with
  | nil => rfl
  | cons c w ih =>
    obtain ⟨hc, hw⟩ := Bool.and_eq_true_iff.mp hw
    rw [length_cons, ← Nat.add_assoc, cons_append, pieces_lit hc, ih hw]
    simp

theorem alternatives_of_pieces {scope : Scope} {fuel : Nat} {s s' : State} {p : Pattern}
    (h : (pieces scope [] fuel).run s = .ok (p, s')) (hrest : s'.rest = []) :
    (alternatives scope (fuel + 1)).run s = .ok (p, s') := by
  have hbar : (accept '|').run s' = .ok (false, s') := by
    simp [accept, hrest]
  rw [alternatives, StateT.run_bind, h, ok_bind, StateT.run_bind, hbar]
  rfl

theorem parse_of_pieces {source : String} {p : Pattern} {s : State}
    (h : (pieces { first := true } [] (2 * source.toList.length + 3)).run { rest := source.toList } =
      .ok (p, s))
    (hrest : s.rest = []) (hflags : s.flags = []) (hmentioned : s.mentioned = []) :
    parse source = .ok p := by
  have halternatives := alternatives_of_pieces h hrest
  have hwhole : whole.run { rest := source.toList } = .ok (p, s) := by
    rw [whole, StateT.run_bind, StateT.run_get, pure_eq_ok, ok_bind, StateT.run_bind,
      halternatives, ok_bind]
    simp [hrest, hflags, hmentioned]
  exact congrArg (Except.map Prod.fst) hwhole

end Pattern.Source

namespace Review

variable (code : String)

/-- The line shown begins before the match, after as many lines as are counted, and goes on where
the match starts. -/
def ShowsLine (m : Match) (s : Sighting) : Prop :=
  ∃ before start rest after, Chars.splitOn '\n' (code.toList.take m.offset) = before ++ [start] ∧
    Chars.splitOn '\n' (code.toList.drop m.offset) = rest :: after ∧
    Chars.splitOn '\n' code.toList = before ++ (start ++ rest) :: after ∧
    s.line = before.length + 1 ∧ s.code = Text.strip (String.ofList (start ++ rest))

theorem showsLine_sighting (d : Danger) (m : Match) : ShowsLine code m (sighting code d m) := by
  obtain ⟨before, start, rest, after, hs, ht, hst, hcount⟩ :=
    Chars.splitOn_meeting '\n' (code.toList.take m.offset) (code.toList.drop m.offset)
  rw [take_append_drop] at hst
  refine ⟨before, start, rest, after, hs, ht, hst, by simp [sighting, lineAt, hcount], ?_⟩
  simp [sighting, Text.splitOn, hst, lineAt, ← hcount]

/-- Every match of a danger is shown on the line on which it starts, as that line without its
blanks. The lines never go back, and each is one of the text. -/
theorem sightings_on_lines (code : String) (d : Danger) (h : d ∈ dangers) :
    Forall₂ (ShowsLine code) (d.pattern.findAll code) (sightings code d) ∧
      ((sightings code d).map (·.line)).Pairwise (· ≤ ·) ∧
      ∀ s ∈ sightings code d, 1 ≤ s.line ∧ s.line ≤ (Text.splitOn '\n' code).length := by
  have hplain : d.pattern.isPlain := all_eq_true.mp (by decide : dangers.all (·.pattern.isPlain) = true) d h
  refine ⟨forall₂_map_right_iff.mpr (forall₂_same.mpr fun m _ => showsLine_sighting code d m), ?_, fun s hs => ?_⟩
  · rw [sightings, map_map, pairwise_map]
    exact (allFrom_offsets hplain _ _ _).1.imp fun hle =>
      Nat.succ_le_succ ((take_sublist_take_left hle).count_le _)
  · obtain ⟨m, -, rfl⟩ := mem_map.mp hs
    obtain ⟨before, start, rest, after, -, -, hlines, hline, -⟩ := showsLine_sighting code d m
    rw [hline, Text.splitOn, length_map, hlines, length_append, length_cons]
    omega

theorem sightings_on_lines_spanning : (sightings "a\n  eval\n (x)"
      ⟨callOf "eval", "high", "Utilisation dangereuse de eval()", "CWE-95"⟩).map
      (fun s => (s.line, s.code)) = [(2, "eval")] ∧
    ((sightings "a\n  eval\n (x)"
      ⟨callOf "eval", "high", "Utilisation dangereuse de eval()", "CWE-95"⟩).map
      (·.line)).Pairwise (· ≤ ·) :=
  ⟨by decide +kernel, (sightings_on_lines _ _ mem_cons_self).2.1⟩

section Words

open Source

/-- The parts of the pattern of a name: the name between two ends of words. -/
def wordParts (w : Chars) : List Pattern := .boundary :: (w.map .lit ++ [.boundary])

theorem importedPattern_of_word {name : String} (h : name.toList.all isWordChar) :
    importedPattern name = .ok (Pattern.all (wordParts name.toList)) := by
  have hsource : ("\\b" ++ name ++ "\\b").toList = '\\' :: 'b' :: (name.toList ++ ['\\', 'b']) := by
    simp
  have hfuel : 2 * ("\\b" ++ name ++ "\\b").toList.length + 3 =
      name.toList.length + 8 + 1 + 1 + name.toList.length + 1 := by
    rw [hsource]
    simp only [length_cons, length_append, length_nil]
    omega
  refine parse_of_pieces (s := { rest := [] }) ?_ rfl rfl rfl
  rw [hfuel, hsource, pieces_boundary (s := { rest := [] }), pieces_word h, pieces_boundary,
    pieces_end]
  simp only [wordParts, reverse_cons, reverse_append, reverse_reverse, reverse_nil, nil_append,
    cons_append, map_cons, map_append, map_nil, map_map]
  rfl

theorem spans_lits {w : Chars} {q : Pattern} {before s after : Chars} :
    Spans {} (Pattern.all (w.map .lit ++ [q])) before s after ↔
      ∃ y, s = w ++ y ∧ Spans {} q (w.reverse ++ before) y after := by
  induction w generalizing before s with
  | nil => simp [Pattern.all]
  | cons c w ih =>
    have hcons : Pattern.all (.lit c :: (w.map .lit ++ [q])) = .seq (.lit c) (Pattern.all (w.map .lit ++ [q])) := by
      cases w <;> rfl
    rw [map_cons, cons_append, hcons]
    simp only [Spans, sameChar, ih]
    simp

theorem side_of_word {w : Chars} (hw : w.all isWordChar) (hne : w ≠ []) (rest : Chars) :
    side {} (w ++ rest) = true := by
  obtain ⟨c, w, rfl⟩ := exists_cons_of_ne_nil hne
  have hc : isWordChar c = true := (Bool.and_eq_true_iff.mp hw).1
  simp [side, CharItem.holds, hc]

/-- A name of word characters is found where it stands as a whole word, and nowhere else. -/
theorem spans_wordParts {w : Chars} (hw : w.all isWordChar) (hne : w ≠ [])
    {before s after : Chars} :
    Spans {} (Pattern.all (wordParts w)) before s after ↔
      s = w ∧ side {} before = false ∧ side {} after = false := by
  have hfirst : side {} (w ++ after) = true := side_of_word hw hne after
  have hlast : side {} (w.reverse ++ before) = true :=
    side_of_word (by simpa using hw) (by simpa using hne) before
  have hparts : Pattern.all (wordParts w) = .seq .boundary (Pattern.all (w.map .lit ++ [.boundary])) := by
    cases w <;> rfl
  rw [hparts]
  simp only [Spans, spans_lits]
  constructor
  · rintro ⟨x, y, rfl, ⟨rfl, hbefore⟩, z, rfl, rfl, hafter⟩
    rw [append_nil, hfirst] at hbefore
    rw [reverse_nil, nil_append, hlast] at hafter
    exact ⟨append_nil w, by simpa using hbefore, by simpa using hafter.symm⟩
  · rintro ⟨rfl, hbefore, hafter⟩
    refine ⟨[], s, rfl, ⟨rfl, by rw [hfirst, hbefore]; decide⟩, [], (append_nil s).symm, rfl, ?_⟩
    rw [reverse_nil, nil_append, hlast, hafter]
    decide

theorem isPlain_all {ps : List Pattern} (h : ∀ p ∈ ps, p.isPlain) : (Pattern.all ps).isPlain := by
  fun_induction Pattern.all ps with
  | case1 => rfl
  | case2 p => exact h p mem_cons_self
  | case3 p rest _ ih =>
    exact Bool.and_eq_true_iff.mpr ⟨h p mem_cons_self, ih fun q hq => h q (mem_cons_of_mem p hq)⟩

/-- An imported name of word characters reads as a pattern, which is found where the name stands as
a whole word and nowhere else. -/
theorem imported_word_found {name : String} (h : name.toList.all isWordChar) (hne : name ≠ "") :
    ∃ p, importedPattern name = .ok p ∧ p.isPlain ∧ ∀ before s after,
      Spans {} p before s after ↔
        s = name.toList ∧ side {} before = false ∧ side {} after = false := by
  refine ⟨_, importedPattern_of_word h, isPlain_all fun p hp => ?_, fun _ _ _ => ?_⟩
  · simp only [wordParts, mem_cons, mem_append, mem_map, not_mem_nil, or_false] at hp
    rcases hp with rfl | ⟨c, -, rfl⟩ | rfl <;> rfl
  · exact spans_wordParts h (by simpa using hne)

end Words

def isFoundOnce (i : Mention) : Bool := (importedPattern i.name).toOption.any (·.countIn code = 1)

theorem unusedImports_of_patterns {code : String} (h : ∀ i ∈ imports code, ∃ p, importedPattern i.name = .ok p) :
    unusedImports code = .ok ((imports code).filter (isFoundOnce code)) := by
  rw [unusedImports, filterM, filterAuxM_of_ok (p := isFoundOnce code)]
  · simp
  · intro i hi
    obtain ⟨p, hp⟩ := h i hi
    rw [hp, isFoundOnce, hp]
    rfl

/-- The review has an answer if and only if each imported name reads as a pattern; the imports in it
are then those whose pattern is found exactly once. -/
theorem unused_imports_told (code : String) :
    ((∃ v, reviewUsage code = .ok v) ↔ ∀ i ∈ imports code, ∃ p, importedPattern i.name = .ok p) ∧
    ∀ v, reviewUsage code = .ok v → ∃ quality unused, v.member "code_quality" = .ok quality ∧
      quality.member "unused_code" = .ok unused ∧
      unused.member "imports" =
        .ok (.list (((imports code).filter (isFoundOnce code)).map Mention.toValue)) := by
  have hread {v : Value} (h : reviewUsage code = .ok v) :
      ∀ i ∈ imports code, ∃ p, importedPattern i.name = .ok p := by
    intro i hi
    obtain ⟨unused, hunused, -⟩ := bind_eq_ok_iff.mp h
    obtain ⟨kept, hkept, -⟩ := bind_eq_ok_iff.mp hunused
    obtain ⟨b, hb⟩ := exists_of_filterAuxM hkept i hi
    obtain ⟨p, hp, -⟩ := bind_eq_ok_iff.mp hb
    exact ⟨p, hp⟩
  refine ⟨⟨fun ⟨v, hv⟩ => hread hv, fun h => ?_⟩, fun v hv => ?_⟩
  · rw [reviewUsage, unusedImports_of_patterns h]
    exact ⟨_, rfl⟩
  · have hmade := hv
    rw [reviewUsage, unusedImports_of_patterns (hread hv)] at hmade
    cases hmade
    exact ⟨_, _, rfl, rfl, rfl⟩

/-- A name that is no pattern leaves the review without an answer, and a point matches any
character. -/
theorem imported_names_read_as_patterns : (reviewUsage "import \x7b a( \x7d a( a(").isOk = false ∧
    (imports "import \x7b a.b \x7d axb").map (·.name) = ["a.b"] ∧
    (imports "import \x7b a.b \x7d axb").filter (isFoundOnce "import \x7b a.b \x7d axb") = [] := by
  decide +kernel

end Review

end CodeAudit

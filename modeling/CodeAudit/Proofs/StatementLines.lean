import CodeAudit.Analyzer.Sql
import CodeAudit.Proofs.PatternMatch

/-! The lines of the issues in SQL text. A match is told with its line in the statement in which it
stands. -/

namespace CodeAudit.Pattern

open List

def Cursor.extent (c : Cursor) : Nat := c.offset + c.ahead.length

variable {flags : PatternFlags} {p : Pattern} {advance : Bool} {fuel : Nat} {c c' : Cursor}
  {m : Match} (h : p.isPlain)

include h

theorem extent_of_searchFrom (hm : searchFrom flags p fuel advance c = .some (m, c')) :
    c.offset ≤ m.offset ∧ m.offset ≤ c'.offset ∧ c'.extent = c.extent := by
  induction fuel generalizing advance c with
  | zero => cases hm
  | succ fuel ih =>
    rw [searchFrom] at hm
    split at hm
    · next hfound =>
      obtain ⟨e, hrun, he⟩ := Option.map_eq_some_iff.mp (hfound.trans hm)
      obtain ⟨s, rest, hs, -, hk⟩ := (findsAt_run h _).sound hrun
      split_ifs at hk
      obtain rfl := Option.some.inj hk
      obtain ⟨rfl, rfl⟩ := Prod.mk.inj he
      refine ⟨Nat.le_refl _, Nat.le_add_right .., ?_⟩
      simp only [Cursor.extent, Cursor.past, show c.ahead = s ++ rest from hs, length_append]
      omega
    · obtain ⟨before, ahead, offset, groups⟩ := c
      cases ahead with
      | nil => cases hm
      | cons d ahead =>
        obtain ⟨hlow, hhigh, heq⟩ := ih hm
        refine ⟨Nat.le_of_succ_le hlow, hhigh, ?_⟩
        simp only [Cursor.extent, length_cons] at *
        omega

theorem allFrom_offsets (fuel : Nat) (advance : Bool) (c : Cursor) :
    (allFrom flags p fuel advance c).Pairwise (fun m m' => m.offset ≤ m'.offset) ∧
      ∀ m ∈ allFrom flags p fuel advance c, c.offset ≤ m.offset ∧ m.offset ≤ c.extent := by
  induction fuel generalizing advance c with
  | zero => simp [allFrom]
  | succ fuel ih =>
    rw [allFrom]
    split
    · simp
    · next m c' hfound =>
      obtain ⟨hlow, hhigh, heq⟩ := extent_of_searchFrom h hfound
      obtain ⟨hpairs, hle⟩ := ih m.text.isEmpty c'
      have hlater (m') (hm' : m' ∈ allFrom flags p fuel m.text.isEmpty c') := Nat.le_trans hhigh (hle m' hm').1
      refine ⟨hpairs.cons hlater, forall_mem_cons.mpr ⟨⟨hlow, ?_⟩, fun m' hm' => ⟨?_, heq ▸ (hle m' hm').2⟩⟩⟩
      · exact Nat.le_trans hhigh (heq ▸ Nat.le_add_right ..)
      · exact Nat.le_trans hlow (hlater m' hm')

theorem offset_le_of_mem_findAll {s : String} (hm : m ∈ findAll p s flags) : m.offset ≤ s.length := by
  simpa [Cursor.extent, Cursor.start, String.length_toList] using ((allFrom_offsets h _ _ _).2 m hm).2

omit h in
theorem lineAt_append {whole s : String} {before after : Chars} (hwhole : whole.toList = before ++ s.toList ++ after)
    {offset : Nat} (hle : offset ≤ s.length) :
    lineAt whole (before.length + offset) = lineAt s offset + before.count '\n' := by
  rw [← String.length_toList] at hle
  rw [lineAt, lineAt, hwhole, append_assoc, take_append, take_of_length_le (Nat.le_add_right ..),
    Nat.add_sub_cancel_left, take_append_of_le_length hle, count_append]
  omega

end CodeAudit.Pattern

namespace CodeAudit.Analyzer.Sql

open List Pattern CodeAudit.Sql

def textOf (ss : List Statement) : List Char := ss.flatMap (·.text.toList)

/-- The statements stand in the text one behind the other. What is left behind them belongs to
none. -/
def Cut (sql : String) (ss : List Statement) : Prop := ∃ rest, sql.toList = textOf ss ++ rest

/-- The issues of the patterns in a statement, with lines told by the places of the matches. -/
def issuesAt (line : Nat → Nat) (s : String) : List Issue :=
  (dangerousRules ++ practiceRules).flatMap fun r =>
    (r.pattern.findAll s { ignoreCase := true }).map fun m =>
      { kind := r.kind, description := r.description, severity := r.severity
        line := line m.offset, code := String.ofList m.text, weaknesses := r.weaknesses }

/-- The issues of a statement that starts at a place of a text, with their lines in that text. -/
def issuesIn (whole : String) (start : Nat) (s : String) : List Issue :=
  issuesAt (fun offset => lineAt whole (start + offset)) s

def lowered (n : Nat) (i : Issue) : Issue := { i with line := i.line + n }

theorem issuesIn_eq {whole s : String} {before after : Chars} (h : whole.toList = before ++ s.toList ++ after) :
    issuesIn whole before.length s = (patternIssues s).map (lowered (before.count '\n')) := by
  have hplain : (dangerousRules ++ practiceRules).all (·.pattern.isPlain) := by decide
  have htold : patternIssues s = issuesAt (lineAt s) s := by
    rw [issuesAt, flatMap_append]
    rfl
  rw [htold, issuesIn, issuesAt, issuesAt, map_flatMap]
  refine flatMap_congr fun r hr => ?_
  rw [map_map]
  refine map_congr_left fun m hm => ?_
  simp [lowered, lineAt_append h (offset_le_of_mem_findAll (all_eq_true.mp hplain r hr) hm)]

theorem eq_map_lowered_iff {n : Nat} {issues : List Issue} :
    issues = issues.map (lowered n) ↔ issues = [] ∨ n = 0 := by
  cases issues with
  | nil => simp
  | cons i issues =>
    constructor
    · intro h
      have hline : i.line = i.line + n := congrArg Issue.line (cons.inj h).1
      exact .inr (by omega)
    · rintro (h | rfl)
      · cases h
      · have hid : lowered 0 = id := funext fun i => by simp [lowered]
        rw [hid, map_id]

theorem mem_issues {parse : String → Outcome (List Statement)} {sql : String} {ss : List Statement} {s : Statement}
    {issues : List Issue} (h : analyze parse sql = .ok issues) (hparse : parse sql = .ok ss) (hs : s ∈ ss) :
    ∀ i ∈ patternIssues s.text, i ∈ issues := by
  intro i hi
  rw [analyze, hparse, ok_bind] at h
  obtain ⟨found, hfound, h⟩ := bind_eq_ok_iff.mp h
  have hmem : checkStatement s ∈ found.map Except.ok := mapM_eq_ok_iff.mp hfound ▸ mem_map_of_mem hs
  obtain ⟨l, hl, hcheck⟩ := mem_map.mp hmem
  cases h
  refine mem_flatten.mpr ⟨l, hl, ?_⟩
  unfold checkStatement at hcheck
  dsimp only at hcheck
  split at hcheck
  · obtain ⟨more, -, hmore⟩ := bind_eq_ok_iff.mp hcheck.symm
    cases hmore
    exact mem_append_left _ hi
  · cases hcheck
    exact hi

/-- Whatever reader cuts the text into statements: if the analysis succeeds, the issues of the
patterns in each statement are told with their lines in the statement. Those in the text are further
down by the lines that end in earlier statements, so they are told if and only if no line does. -/
theorem lines_told (parse : String → Outcome (List Statement)) (sql : String) (issues : List Issue)
    (h : analyze parse sql = .ok issues) (hcut : ∀ ss, parse sql = .ok ss → Cut sql ss) :
    ∃ ss, parse sql = .ok ss ∧ ∀ before s after, ss = before ++ s :: after →
      (∀ i ∈ patternIssues s.text, i ∈ issues) ∧
      issuesIn sql (textOf before).length s.text =
        (patternIssues s.text).map (lowered ((textOf before).count '\n')) ∧
      (patternIssues s.text = issuesIn sql (textOf before).length s.text ↔
        patternIssues s.text = [] ∨ '\n' ∉ textOf before) := by
  obtain ⟨ss, hparse, -⟩ := bind_eq_ok_iff.mp h
  refine ⟨ss, hparse, fun before s after hs => ?_⟩
  obtain ⟨rest, hjoin⟩ := hcut ss hparse
  have hwhole : sql.toList = textOf before ++ s.text.toList ++ (textOf after ++ rest) := by
    rw [hjoin, hs]
    simp [textOf]
  have hlines := issuesIn_eq hwhole
  refine ⟨mem_issues h hparse (by simp [hs]), hlines, ?_⟩
  rw [hlines, eq_map_lowered_iff, count_eq_zero]

/-- Three statements. Those of the first two start on the first line. -/
def threeStatements : String := "*;*\n;*"

theorem lines_told_three :
    ∃ ss, CodeAudit.Sql.parse threeStatements = .ok ss ∧ ss.map (·.text) = ["*;", "*\n;", "*"] ∧
    patternIssues "*\n;" = issuesIn threeStatements 2 "*\n;" ∧
    patternIssues "*" ≠ issuesIn threeStatements 5 "*" := by
  have htexts : (CodeAudit.Sql.parse threeStatements).toOption.map (·.map (·.text)) =
    some ["*;", "*\n;", "*"] := by decide
  have hok : (analyze CodeAudit.Sql.parse threeStatements).isOk = true := by decide
  have hsome : patternIssues "*" ≠ [] := by decide
  obtain ⟨ss, hparse, htexts⟩ : ∃ ss, CodeAudit.Sql.parse threeStatements = .ok ss ∧
      ss.map (·.text) = ["*;", "*\n;", "*"] := by
    cases hparse : CodeAudit.Sql.parse threeStatements with
    | error f => rw [hparse] at htexts; cases htexts
    | ok ss => exact ⟨ss, rfl, by rw [hparse] at htexts; exact Option.some.inj htexts⟩
  obtain ⟨a, rest, rfl, ha, hrest⟩ := map_eq_cons_iff.mp htexts
  obtain ⟨b, rest, rfl, hb, hrest⟩ := map_eq_cons_iff.mp hrest
  obtain ⟨c, rest, rfl, hc, hrest⟩ := map_eq_cons_iff.mp hrest
  obtain rfl := map_eq_nil_iff.mp hrest
  have hone : textOf [a] = "*;".toList := by simp [textOf, ha]
  have htwo : textOf [a, b] = "*;*\n;".toList := by simp [textOf, ha, hb]
  cases h : analyze CodeAudit.Sql.parse threeStatements with
  | error f => rw [h] at hok; cases hok
  | ok issues =>
    have hcut : ∀ ss, CodeAudit.Sql.parse threeStatements = .ok ss → Cut threeStatements ss := by
      intro ss hss
      obtain rfl := Except.ok.inj (hparse.symm.trans hss)
      exact ⟨[], by simp [textOf, ha, hb, hc, threeStatements]⟩
    obtain ⟨ss, hss, hlines⟩ := lines_told CodeAudit.Sql.parse threeStatements issues h hcut
    obtain rfl := Except.ok.inj (hparse.symm.trans hss)
    refine ⟨_, hparse, htexts, ?_, fun hsame => ?_⟩
    · have hsecond := (hlines [a] b [c] rfl).2.2
      rw [hone, hb] at hsecond
      exact hsecond.mpr (.inr (by decide))
    · have hthird := (hlines [a, b] c [] rfl).2.2
      rw [htwo, hc] at hthird
      rcases hthird.mp hsame with hnone | hline
      · exact hsome hnone
      · exact hline (by decide)

/-- What stands on the second line in the second statement is told of the first line. -/
theorem second_statement_line :
    (CodeAudit.Sql.parse "\n;*").toOption.map (·.map (·.text)) = some ["\n;", "*"] ∧
    (analyze CodeAudit.Sql.parse "\n;*").toOption.map (·.map (·.line)) = some [1] ∧
      (issuesIn "\n;*" 2 "*").map (·.line) = [2] := by
  decide

end CodeAudit.Analyzer.Sql

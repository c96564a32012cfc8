import Mathlib.Data.List.DropRight
import CodeAudit.Analyzer.Script
import CodeAudit.Proofs.PatternMatch

/-! The analysis of a script looks at its lines one by one: what is reported of a line depends on
that line and its number, and on nothing else in the text. -/

namespace CodeAudit.Analyzer

open List Text

theorem Issue.toValue_injective : Function.Injective Issue.toValue := by
  rintro ⟨_, _, _, _, _, ws⟩ ⟨_, _, _, _, _, ws'⟩ h
  simp only [Issue.toValue, Value.texts, Value.object.injEq, cons.injEq, Prod.mk.injEq, Value.text.injEq,
    Value.int.injEq, Value.list.injEq, true_and, and_true] at h
  obtain ⟨rfl, rfl, rfl, rfl, rfl, hws⟩ := h
  rw [(map_inj_right fun _ _ => Value.text.inj).mp hws]

namespace Script

def issuesAt (issues : List Issue) (k : Nat) : List Issue := issues.filter fun i => i.line = k

theorem issuesAt_append (issues more : List Issue) (k : Nat) :
    issuesAt (issues ++ more) k = issuesAt issues k ++ issuesAt more k := filter_append ..

section Lines

variable {g : Nat → String → List Issue}

theorem mem_numbered (hg : ∀ k line, ∀ i ∈ g k line, i.line = k) {lines : List String} {n : Nat} {i : Issue}
    (hi : i ∈ (lines.zipIdx n).flatMap fun p => g p.2 p.1) : ∃ k < lines.length, i.line = (n + k : Nat) := by
  obtain ⟨⟨line, m⟩, hmem, hi⟩ := mem_flatMap.mp hi
  obtain ⟨hle, hlt, -⟩ := mem_zipIdx hmem
  refine ⟨m - n, by omega, ?_⟩
  rw [hg m line i hi, Nat.add_sub_cancel' hle]

theorem issuesAt_numbered (hg : ∀ k line, ∀ i ∈ g k line, i.line = k) (lines : List String) (n k : Nat) :
    issuesAt ((lines.zipIdx n).flatMap fun p => g p.2 p.1) (n + k) = lines[k]?.elim [] (g (n + k)) := by
  induction lines generalizing n k with
  | nil => rfl
  | cons line rest ih =>
    rw [zipIdx_cons, flatMap_cons, issuesAt_append]
    cases k with
    | zero =>
      have hfirst : issuesAt (g n line) n = g n line := filter_eq_self.mpr fun i hi => by simpa using hg n line i hi
      have hrest : issuesAt ((rest.zipIdx (n + 1)).flatMap fun p => g p.2 p.1) n = [] := by
        refine filter_eq_nil_iff.mpr fun i hi => ?_
        obtain ⟨k, -, hline⟩ := mem_numbered hg hi
        simp only [decide_eq_true_eq]
        omega
      simp [hfirst, hrest]
    | succ k =>
      have hfirst : issuesAt (g n line) (n + (k + 1)) = [] := by
        refine filter_eq_nil_iff.mpr fun i hi => ?_
        simp only [hg n line i hi, decide_eq_true_eq]
        omega
      have hrest := ih (n + 1) k
      rw [Nat.add_right_comm n 1 k] at hrest
      rw [hfirst]
      exact hrest

end Lines

variable {check : LineCheck} {line : String}

theorem line_of_mem_check (hcheck : check ∈ lineChecks) {k : Nat} {i : Issue}
    (hi : i ∈ check k line) : i.line = k := by
  simp only [lineChecks, mem_cons, not_mem_nil, or_false] at hcheck
  rcases hcheck with rfl | rfl | rfl | rfl
  · obtain ⟨c, -, rfl⟩ := mem_map.mp hi
    rfl
  · obtain ⟨c, -, rfl⟩ := mem_map.mp hi
    split <;> rfl
  · obtain ⟨c, -, rfl⟩ := mem_map.mp hi
    split <;> rfl
  · rcases mem_append.mp hi with hi | hi
    all_goals
      split at hi
      · rw [mem_singleton.mp hi]
        rfl
      · cases hi

def ofLine (check : LineCheck) (k : Nat) (line : String) : List Issue :=
  if Text.startsWith "#" (Text.strip line) then [] else check k (Text.strip line)

theorem line_of_mem_ofLine (hcheck : check ∈ lineChecks) (k : Nat) (line : String) :
    ∀ i ∈ ofLine check k line, i.line = k := by
  intro i hi
  unfold ofLine at hi
  split at hi
  · cases hi
  · exact line_of_mem_check hcheck hi

theorem issuesAt_contentIssues (code : String) (k : Nat) : issuesAt (contentIssues code) (k + 1) =
      lineChecks.flatMap fun check => (lines code)[k]?.elim [] (ofLine check (k + 1)) := by
  rw [issuesAt, contentIssues, filter_flatMap]
  refine flatMap_congr fun check hcheck => ?_
  have h := issuesAt_numbered (line_of_mem_ofLine hcheck) (lines code) 1 k
  rwa [Nat.add_comm 1 k] at h

theorem startsWith_strip (h : line.toList.find? (!isBlank ·) = some '#') :
    startsWith "#" (strip line) := by
  obtain ⟨hsign, blanks, rest, hline, hblanks⟩ := find?_eq_some_iff_append.mp h
  have hdrop : line.toList.dropWhile isBlank = '#' :: rest := by
    rw [hline, dropWhile_append_of_pos (by simpa using hblanks)]
    exact dropWhile_cons_of_neg (by simpa using hsign)
  have hstrip : Chars.strip line.toList = ('#' :: rest).rdropWhile isBlank := by
    rw [← hdrop]
    rfl
  rw [startsWith, strip, Chars.startsWith_iff, hstrip]
  -- what is cut off at the right ends before the first sign that is no blank
  have hfront : ('#' :: rest).rdropWhile isBlank <+: '#' :: rest := rdropWhile_prefix isBlank _
  cases hs : ('#' :: rest).rdropWhile isBlank with
  | nil =>
    have hblank := rdropWhile_eq_nil_iff.mp hs '#' (by simp)
    simp [hblank] at hsign
  | cons c s =>
    rw [hs, cons_prefix_cons] at hfront
    simp [hfront.1]

theorem issues_of_result {modeOf : String → Option Nat} {filename code : String} {r : Report}
    (hfile : modeOf filename = none)
    (h : ((engine modeOf).analysis ⟨.text code, .text filename⟩).result = .ok (reportValue (some r))) :
    r.issues = contentIssues code := by
  have hvalue : reportValue (analyze? filename code (modeOf filename)) = reportValue (some r) := Except.ok.inj h
  rw [hfile, analyze?] at hvalue
  cases hl : language? filename code with
  | none => simp [hl, reportValue] at hvalue
  | some l =>
    simp only [hl, Option.map_some, Option.map_none, Option.getD_none, append_nil, reportValue,
      Value.object.injEq, cons.injEq, Prod.mk.injEq, Value.list.injEq, true_and, and_true] at hvalue
    exact (map_injective_iff.mpr Issue.toValue_injective hvalue.2).symm

/-- For all texts recognised as scripts, whose file is not there to be looked at: issues with the
number of a line on which two texts agree are the same for both, every issue has the number of a
line, and a comment has none. -/
theorem script_issues_by_line {modeOf : String → Option Nat} {filename a b : String}
    {ra rb : Report} (hfile : modeOf filename = none)
    (ha : ((engine modeOf).analysis ⟨.text a, .text filename⟩).result = .ok (reportValue (some ra)))
    (hb : ((engine modeOf).analysis ⟨.text b, .text filename⟩).result =
    .ok (reportValue (some rb))) :
    (∀ k, (Text.lines a)[k]? = (Text.lines b)[k]? →
      (issuesAt ra.issues (k + 1)).Perm (issuesAt rb.issues (k + 1))) ∧
    (∀ i ∈ ra.issues, 1 ≤ i.line ∧ i.line ≤ (Text.lines a).length) ∧
    ∀ k line, (Text.lines a)[k]? = some line → line.toList.find? (!isBlank ·) = some '#' →
      issuesAt ra.issues (k + 1) = [] := by
  rw [issues_of_result hfile ha, issues_of_result hfile hb]
  refine ⟨fun k hk => ?_, fun i hi => ?_, fun k line hk hline => ?_⟩
  · rw [issuesAt_contentIssues, issuesAt_contentIssues, hk]
  · obtain ⟨check, hcheck, hi⟩ := List.mem_flatMap.mp hi
    obtain ⟨k, hk, hline⟩ := mem_numbered (line_of_mem_ofLine hcheck) hi
    omega
  · rw [issuesAt_contentIssues, hk]
    simp [ofLine, startsWith_strip hline]

/-- The second lines agree, the first and the numbers of lines do not. -/
theorem script_issues_by_line_shared : let a := "#!/bin/sh\n sudo rm x"
    let b := "echo $HOME\n sudo rm x\n # rm y"
    ∃ ra rb, ((engine fun _ => none).analysis ⟨.text a, .text "run"⟩).result = .ok (reportValue (some ra)) ∧
      ((engine fun _ => none).analysis ⟨.text b, .text "run"⟩).result = .ok (reportValue (some rb)) ∧
      (issuesAt ra.issues 2).map (·.kind) = ["dangerous_command", "file_operation"] ∧
      (issuesAt ra.issues 2).Perm (issuesAt rb.issues 2) ∧ rb.issues.length = 3 ∧ issuesAt rb.issues 3 = [] := by
  intro a b
  have hjob (code : String) (h : (language? "run" code).isSome = true) : ∃ l,
      ((engine fun _ => none).analysis ⟨.text code, .text "run"⟩).result =
        .ok (reportValue (some ⟨l, contentIssues code⟩)) := by
    obtain ⟨l, hl⟩ := Option.isSome_iff_exists.mp h
    refine ⟨l, ?_⟩
    change Except.ok (reportValue (analyze? "run" code none)) = _
    simp [analyze?, hl]
  obtain ⟨la, ha⟩ := hjob a (by decide)
  obtain ⟨lb, hb⟩ := hjob b (by decide)
  have hkinds : (issuesAt (contentIssues a) 2).map (·.kind) = ["dangerous_command", "file_operation"] := by
    decide
  have hcount : (contentIssues b).length = 3 := by decide
  have hshared := script_issues_by_line rfl ha hb
  have hcomment := (script_issues_by_line rfl hb ha).2.2 2 " # rm y" (by decide) (by decide)
  exact ⟨_, _, ha, hb, hkinds, hshared.1 1 (by decide), hcount, hcomment⟩

section Words

open Pattern

variable {w : String} {before after : Chars}

theorem side_append {s : Chars} (h : side {} s) (t : Chars) : side {} (s ++ t) := by
  cases s with
  | nil => cases h
  | cons c s => exact h

theorem occurs_word (hline : line.toList = before ++ (w.toList ++ after)) (hbefore : side {} before.reverse = false)
    (hafter : side {} after = false) (hfirst : side {} w.toList) (hlast : side {} w.toList.reverse) :
    occurs (word w) line := by
  refine (occurs_iff (by simp [word, Pattern.all, text, isPlain, isPlain_chars]) line).mpr
    ⟨before, w.toList, after, hline, [], w.toList, rfl, ⟨rfl, ?_⟩, w.toList, [], by simp,
      spans_chars.mpr rfl, rfl, ?_⟩
  · rw [hbefore, side_append hfirst]
    simp
  · rw [side_append hlast, hafter]
    simp

def wordedCommands : List String := [
  "chmod 777", "mkfs", "dd if=/dev/zero", "wget http|curl http", "eval", "sudo", "sudo su"]

theorem mem_commandsIn {name : String} (hname : name ∈ wordedCommands)
    (hline : line.toList = before ++ (name.toList ++ after)) (hbefore : ∀ c ∈ before.getLast?, c = ' ')
    (hafter : ∀ c ∈ after.head?, c = ' ') : ∃ c ∈ commandsIn dangerousCommands line, c.name = name := by
  have hb : side {} before.reverse = false := side_eq_false fun c hc => .inl (hbefore c (by simpa using hc))
  have ha : side {} after = false := side_eq_false fun c hc => .inl (hafter c hc)
  by_cases hfetch : name = "wget http|curl http"
  · subst hfetch
    have hsplit : "wget http|curl http".toList = "wget http".toList ++ "|curl http".toList := by decide
    have hfirst : side {} "wget http".toList := by decide
    rw [hsplit, append_assoc] at hline
    refine ⟨_, mem_filter.mpr ⟨mem_of_getElem? (i := 6) rfl, ?_⟩, rfl⟩
    refine (occurs_iff (by decide) line).mpr ⟨before, _, _, hline, .inl ?_⟩
    have hne : side {} before.reverse ≠ side {} ("wget http".toList ++ ("|curl http".toList ++ after)) :=
      fun h => Bool.false_ne_true (hb.symm.trans (h.trans (side_append hfirst _)))
    exact ⟨[], _, rfl, ⟨rfl, hne⟩, spans_chars.mpr rfl⟩
  · have hword : Command.ofWord name ∈ dangerousCommands ∧ side {} name.toList ∧ side {} name.toList.reverse := by
      simp only [wordedCommands, mem_cons, not_mem_nil, or_false] at hname
      rcases hname with rfl | rfl | rfl | rfl | rfl | rfl | rfl
      case inr.inr.inr.inl => exact absurd rfl hfetch
      all_goals exact ⟨by simp [dangerousCommands], by decide, by decide⟩
    exact ⟨_, mem_filter.mpr ⟨hword.1, occurs_word hline hb ha hword.2.1 hword.2.2⟩, rfl⟩

end Words

/-- Of every line of a script: a comment is passed over, and any other line in which one of the
commands stands alone or between blanks has an issue that names the command. -/
theorem dangerous_line_reported {code line : String} {k : Nat}
    (hline : (Text.lines code)[k]? = some line) :
    (startsWith "#" (strip line) → issuesAt (checkLines code checkDangerous) (k + 1) = []) ∧
    (startsWith "#" (strip line) = false → ∀ name ∈ wordedCommands, ∀ before after,
      (strip line).toList = before ++ (name.toList ++ after) → (∀ c ∈ before.getLast?, c = ' ') →
      (∀ c ∈ after.head?, c = ' ') → ∃ i ∈ issuesAt (checkLines code checkDangerous) (k + 1),
        i.kind = "dangerous_command" ∧ i.line = (k + 1 : Nat) ∧ i.code = strip line ∧
          i.description = "Commande dangereuse détectée: " ++ name) := by
  have hissues : issuesAt (checkLines code checkDangerous) (k + 1) = ofLine checkDangerous (k + 1) line := by
    have hcheck : checkDangerous ∈ lineChecks := by simp [lineChecks]
    have h : issuesAt (checkLines code checkDangerous) (1 + k) = _ :=
      issuesAt_numbered (line_of_mem_ofLine hcheck) (lines code) 1 k
    rwa [Nat.add_comm 1 k, hline, Option.elim_some] at h
  rw [hissues, ofLine]
  refine ⟨fun h => if_pos h, fun h name hname before after htext hbefore hafter => ?_⟩
  obtain ⟨c, hc, rfl⟩ := mem_commandsIn hname htext hbefore hafter
  rw [if_neg (by simp [h])]
  exact ⟨_, mem_map_of_mem hc, rfl, rfl, rfl, rfl⟩

theorem dangerous_line_reported_second :
    ∃ i ∈ issuesAt (checkLines "# eval\n x | sudo su -" checkDangerous) 2,
    i.description = "Commande dangereuse détectée: sudo su" := by
  have hline : (Text.lines "# eval\n x | sudo su -")[1]? = some " x | sudo su -" := by decide
  obtain ⟨i, hi, -, -, -, hname⟩ := (dangerous_line_reported hline).2 (by decide) "sudo su" (by decide)
    "x | ".toList " -".toList (by decide) (by simp) (by simp)
  exact ⟨i, hi, hname⟩

/-- A comment is passed over, and so is one of the dangerous commands. -/
theorem entries_not_reported :
    checkLines "# sudo" checkDangerous = [] ∧ checkLines "rm -rf /" checkDangerous = [] :=
  ⟨length_eq_zero_iff.mp (by decide), length_eq_zero_iff.mp (by decide)⟩

end Script

end CodeAudit.Analyzer

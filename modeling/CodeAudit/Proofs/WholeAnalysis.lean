import CodeAudit.Audit

/-! What a whole analysis tells. Only that of a script comes to an end: every other one is scored,
and scoring always fails. -/

namespace CodeAudit.Pipeline

open Progress

section Work

variable {α β : Type} {w : Work α} {next : α → Work β} {task later : Task}

theorem run_bind_of_ok {x : α} (h : w.run task = (.ok x, later)) : (w >>= next).run task = (next x).run later := by
  change (ExceptT.bindCont next (w.run task).1).run (w.run task).2 = _
  rw [h]
  rfl

theorem run_bind_of_error {f : Fault} (h : w.run task = (.error f, later)) :
    (w >>= next).run task = (.error f, later) := by
  change (ExceptT.bindCont next (w.run task).1).run (w.run task).2 = _
  rw [h]
  rfl

theorem run_ok_bind (x : α) : ((liftM (.ok x : Outcome α) : Work α) >>= next).run task = (next x).run task := rfl

theorem run_error_bind (f : Fault) :
    ((liftM (.error f : Outcome α) : Work α) >>= next).run task = (.error f, task) := rfl

def Fails (w : Work α) : Prop := ∀ task, ∃ f, (w.run task).1 = .error f

theorem Fails.of_next (w : Work α) (h : ∀ x, Fails (next x)) : Fails (w >>= next) := by
  intro task
  rcases hw : w.run task with ⟨f | x, later⟩
  · exact ⟨f, by rw [run_bind_of_error hw]⟩
  · rw [run_bind_of_ok hw]
    exact h x later

theorem fails_score (r : Results) : Fails (liftM (score r) : Work Results) := by
  intro task
  cases hs : score r with
  | error f => exact ⟨f, rfl⟩
  | ok scored =>
    -- The last step of a score is to fail.
    obtain ⟨_, -, hthrow⟩ := bind_eq_ok_iff.mp hs
    cases hthrow

end Work

def scriptReport? (a : Analyzers) : Option (Value × Value) := do
  let told ← (a "script").toOption
  if ((told.member "is_script").toOption.getD .null).truthy then
    return (← (told.member "issues").toOption, ← (told.member "script_type").toOption)
  else none

variable {a : Analyzers} {issues type : Value}

theorem run_script_of_some (h : scriptReport? a = some (issues, type)) (r : Results) (task : Task) :
    ∃ later, (script a r).run task =
      (.ok (true, { r with issues := issues, quality := { r.quality with scriptType := type } }), later) := by
  unfold scriptReport? at h
  unfold script
  cases ha : a "script" with
  | error f => simp [ha, Except.toOption] at h
  | ok told =>
    cases hflag : told.member "is_script" with
    | error f => simp [ha, hflag, Except.toOption, Value.truthy] at h
    | ok flag =>
      cases hissues : told.member "issues" <;> cases htype : told.member "script_type" <;>
        simp [ha, hflag, hissues, htype, Except.toOption] at h
      obtain ⟨htrue, rfl, rfl⟩ := h
      rw [run_ok_bind, hflag, run_ok_bind, if_pos htrue, hissues, htype]
      exact ⟨_, rfl⟩

theorem run_script_of_none (h : scriptReport? a = none) (r : Results) (task : Task) :
    (script a r).run task = (.ok (false, r), task) ∨ ∃ f, (script a r).run task = (.error f, task) := by
  unfold scriptReport? at h
  unfold script
  cases ha : a "script" with
  | error f => exact .inr ⟨f, run_error_bind f⟩
  | ok told =>
    rw [run_ok_bind]
    cases hflag : told.member "is_script" with
    | error f => exact .inr ⟨f, run_error_bind f⟩
    | ok flag =>
      rw [run_ok_bind]
      cases htrue : flag.truthy with
      | false => exact .inl rfl
      | true =>
        rw [if_pos rfl]
        cases hissues : told.member "issues" with
        | error f => exact .inr ⟨f, run_error_bind f⟩
        | ok issues =>
          rw [run_ok_bind]
          cases htype : told.member "script_type" with
          | error f => exact .inr ⟨f, run_error_bind f⟩
          | ok type => simp [ha, hflag, htrue, hissues, htype, Except.toOption] at h

variable {r : Results}

theorem Fails.of_script {next : Bool × Results → Work Results}
    (h : scriptReport? a = none) (hnext : Fails (next (false, r))) : Fails (script a r >>= next) := by
  intro task
  obtain hrun | ⟨f, hrun⟩ := run_script_of_none h r task
  · rw [run_bind_of_ok hrun]
    exact hnext task
  · exact ⟨f, by rw [run_bind_of_error hrun]⟩

def blank (now : Time.DateTime) (code : Value) (filename : String) : Results where
  file := filename
  timestamp := now
  summary := .object [("severity_counts", .object Results.noCounts)]
  code := code

def examine (a : Analyzers) (r : Results) : Work Results :=
  if Text.endsWith ".ts" r.file then do score (← typeScript a r)
  else do
    let (isScript, r) ← script a r
    if isScript then return r
    else
      scan a
      score r

/-- What is said of a file that is taken for a script. TypeScript never is. -/
def scriptTold? (a : Analyzers) (filename : String) : Option (Value × Value) :=
  if Text.endsWith ".ts" filename then none else scriptReport? a

theorem fails_examine (h : scriptTold? a r.file = none) : Fails (examine a r) := by
  unfold scriptTold? at h
  unfold examine
  cases hts : Text.endsWith ".ts" r.file with
  | true => exact Fails.of_next _ fun r => fails_score r
  | false =>
    rw [hts] at h
    exact Fails.of_script h (Fails.of_next _ fun _ => fails_score _)

theorem run_examine_of_some (h : scriptTold? a r.file = some (issues, type)) (task : Task) :
    ((examine a r).run task).1 =
      .ok { r with issues := issues, quality := { r.quality with scriptType := type } } := by
  unfold scriptTold? at h
  unfold examine
  cases hts : Text.endsWith ".ts" r.file with
  | true => simp [hts] at h
  | false =>
    rw [hts] at h
    obtain ⟨later, hrun⟩ := run_script_of_some h r task
    rw [if_neg Bool.false_ne_true, run_bind_of_ok hrun]
    rfl

def resultsOf (now : Time.DateTime) (code : Value) (filename : String) : Option (Value × Value) → Results
  | none => Results.notDone now
  | some (issues, type) => { blank now code filename with issues := issues, quality := { scriptType := type } }

def begun (task : Progress.Task) : Progress.Task :=
  (task.applyOrDrop (.status (.text "🔍 Préparation de l'analyse..."))).applyOrDrop (.progress (.int 10))

theorem analyze_fst (a : Analyzers) (now : Time.DateTime) (code : Value) (filename : String) (task : Task) :
    (analyze a now code (.text filename) task).1 =
      ((examine a (blank now code filename)).run (begun task)).1.toOption.getD (Results.notDone now) := by
  have hrun : (attempt a now code (.text filename)).run task =
      (examine a (blank now code filename)).run (begun task) := rfl
  unfold analyze
  rw [hrun]
  rcases (examine a (blank now code filename)).run (begun task) with ⟨_ | _, _⟩ <;> rfl

theorem analyze_eq (a : Analyzers) (now : Time.DateTime) (code : Value) (filename : String) (task : Task) :
    (analyze a now code (.text filename) task).1 = resultsOf now code filename (scriptTold? a filename) := by
  rw [analyze_fst]
  rcases htold : scriptTold? a filename with _ | ⟨issues, type⟩
  · obtain ⟨f, hf⟩ := fails_examine (r := blank now code filename) htold (begun task)
    rw [hf]
    rfl
  · rw [run_examine_of_some (r := blank now code filename) htold]
    rfl

inductive Reported
  | ready (issue : Value)
  | scanned (issue : Value)

namespace Reported

def severity : Reported → Outcome Value
  | ready issue => issue.fetch "severity" (.text "")
  | scanned issue => issue.member "issue_severity"

def isCounted (p : Reported) : Bool :=
  match p.severity with
  | .ok (.text s) => severityLevels.contains (lowerText s)
  | _ => false

def IsKeptAs (filename : String) (kept : Value) : Reported → Prop
  | ready issue => kept = issue
  | scanned issue =>
    kept.member "type" = issue.member "test_id" ∧ kept.member "severity" = issue.member "issue_severity" ∧
      kept.member "description" = issue.member "issue_text" ∧
      kept.member "line_number" = issue.fetch "line_number" (.int 0) ∧
      kept.member "code" = issue.fetch "code" (.text "") ∧ kept.member "file" = .ok (.text filename)

end Reported

def listed (told : Outcome Value) : List Value := (told.bind Value.parts).toOption.getD []

def reported (a : Analyzers) (filename : String) : List Reported :=
  if Text.endsWith ".ts" filename then
    (listed (a "typescript" >>= fun told => told.fetch "security_issues" (.list []))).map .ready
  else match scriptReport? a with
    | some (issues, _) => (listed (.ok issues)).map .ready
    | none => (listed (a "bandit")).map .scanned

theorem reported_of_some {filename : String} (h : scriptTold? a filename = some (issues, type)) :
    reported a filename = (listed (.ok issues)).map .ready := by
  unfold scriptTold? at h
  unfold reported
  cases hts : Text.endsWith ".ts" filename with
  | true => simp [hts] at h
  | false =>
    rw [hts, if_neg Bool.false_ne_true] at h
    rw [if_neg Bool.false_ne_true, h]

/-- The results are those of the file: they hold all that was reported, and count it unless it is a
script. -/
structure IsFaithful (a : Analyzers) (filename : String) (r : Results) : Prop where
  file : r.file = filename
  kept : ∀ p ∈ reported a filename, ∃ kept ∈ listed (.ok r.issues), p.IsKeptAs filename kept
  total : scriptTold? a filename = none →
    r.summary.member "total_issues" = .ok (.int ((reported a filename).countP (·.isCounted)))

/-- An analysis tells what its analyzers report of scripts, and of nothing else: whatever they say
of other code, the results are those of an analysis that was not done. -/
theorem analyze_isFaithful_iff (a : Analyzers) (now : Time.DateTime) (code : Value)
    (filename : String) (task : Progress.Task) :
    (IsFaithful a filename (analyze a now code (.text filename) task).1 ↔
      (scriptTold? a filename).isSome) ∧
      (analyze a now code (.text filename) task).1 =
        resultsOf now code filename (scriptTold? a filename) := by
  refine ⟨?_, analyze_eq a now code filename task⟩
  rw [analyze_eq]
  rcases htold : scriptTold? a filename with _ | ⟨issues, type⟩
  -- Results that were not done have no total, also where the file happens to be called as theirs
  -- is.
  · refine iff_of_false (fun hfaithful => ?_) Bool.false_ne_true
    have htotal := hfaithful.total htold
    cases htotal
  · refine iff_of_true ⟨rfl, ?_, fun hnone => ?_⟩ rfl
    · rw [reported_of_some htold]
      intro p hp
      obtain ⟨issue, hissue, rfl⟩ := List.mem_map.mp hp
      exact ⟨issue, hissue, rfl⟩
    · rw [htold] at hnone
      cases hnone

def findNothing : Analyzers
  | "script" => .ok (.object [("is_script", .bool false)])
  | _ => .ok (.list [])

/-- The analysis of code in which nothing is found is answered as one that was not done. -/
theorem clean_code_not_done : (∀ name, (findNothing name).isOk) ∧
    ∀ now task, ¬ IsFaithful findNothing "a.py"
      (analyze findNothing now (.text "x = 1\n") (.text "a.py") task).1 := by
  refine ⟨fun name => ?_, fun now task hfaithful => ?_⟩
  · unfold findNothing
    split <;> rfl
  · have hnone : scriptTold? findNothing "a.py" = none := rfl
    have hfile := hfaithful.file
    rw [analyze_eq, hnone] at hfile
    exact absurd (show "unknown" = "a.py" from hfile) (by decide)

end CodeAudit.Pipeline

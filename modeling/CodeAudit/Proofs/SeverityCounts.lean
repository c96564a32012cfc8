import CodeAudit.Proofs.Dictionary
import CodeAudit.Proofs.TimeText
import CodeAudit.Results

/-! Results count problems of each severity as they are added, and anew when the summary is
updated. -/

namespace CodeAudit

variable {i : SecurityIssue}

open List Entries Value SecurityIssue

namespace SecurityIssue

theorem member_severity (i : SecurityIssue) : i.toValue.member "severity" = .ok i.severity := by
  simp [toValue, member]

def level? (i : SecurityIssue) : Option String :=
  match i.severity with
  | .text s => some (lowerText s)
  | _ => none

theorem level?_of_text {s : String} (h : i.severity = .text s) : i.level? = some (lowerText s) := by simp [level?, h]

end SecurityIssue

namespace Results

inductive Call where
  | add (issue : SecurityIssue)
  | setCode (code : Value)
  | update

def next (r : Results) : Call → Outcome Results
  | .add issue => (r.add issue).1.map fun _ => (r.add issue).2
  | .setCode code => .ok { r with code }
  | .update => r.update

def Call.issue? : Call → Option SecurityIssue
  | .add issue => some issue
  | .setCode _ | .update => none

def tableOf (f : String → Nat) : Entries := severityLevels.map fun level => (level, .nat (f level))

def bump (f : String → Nat) (severity level : String) : Nat := if level = severity then f level + 1 else f level

variable (f : String → Nat) {severity level : String}

theorem lookup_tableOf (h : level ∈ severityLevels) :
    (tableOf f).lookup level = some (.nat (f level)) := lookup_graph (fun level => nat (f level)) h

theorem put_tableOf (h : severity ∈ severityLevels) :
    put severity (.nat (f severity + 1)) (tableOf f) = tableOf (bump f severity) := by
  simp only [severityLevels, mem_cons, not_mem_nil, or_false] at h
  rcases h with rfl | rfl | rfl | rfl <;> rfl

theorem tableOf_bump_of_notMem (h : severity ∉ severityLevels) : tableOf (bump f severity) = tableOf f := by
  refine map_congr_left fun level hlevel => ?_
  have hne : level ≠ severity := fun he => h (he ▸ hlevel)
  rw [bump, if_neg hne]

theorem countSeverity_eq {summary : Entries} {f : String → Nat}
    (h : summary.lookup "severity_counts" = some (.object (tableOf f))) (severity : String) :
    ∃ counted : Entries, countSeverity (.object summary) severity = .ok (.object counted) ∧
      counted.lookup "severity_counts" = some (.object (tableOf (bump f severity))) := by
  have hmember := member_object h
  by_cases hlevel : severity ∈ severityLevels
  · have hfound := lookup_tableOf f hlevel
    have hcount := member_object hfound
    refine ⟨put "severity_counts" (.object (tableOf (bump f severity))) summary, ?_,
      by simp [lookup_put]⟩
    simp [countSeverity, hmember, holds, hfound, hcount, add_one, assign, put_tableOf f hlevel]
  · have hnone : (tableOf f).lookup severity = none :=
      lookup_eq_none (by simpa [tableOf] using hlevel)
    refine ⟨summary, ?_, by rw [tableOf_bump_of_notMem f hlevel, h]⟩
    simp [countSeverity, hmember, holds, hnone]

def countOf (issues : List SecurityIssue) (level : String) : Nat := issues.countP (·.level? = some level)

theorem countOf_append {issue : SecurityIssue} (h : issue.level? = some level)
    (issues : List SecurityIssue) : countOf (issues ++ [issue]) = bump (countOf issues) level := by
  funext other
  rw [countOf, countP_append, countP_singleton, h, bump, countOf]
  by_cases ho : other = level
  · simp [ho]
  · simp [ho, Ne.symm ho]

/-! Problems in the form in which they are kept. -/

variable {r : Results} {issues : List SecurityIssue}

theorem severityCounts_of_kept (htexts : ∀ i ∈ issues, ∃ s, i.severity = .text s)
    (h : r.issues = .list (issues.map SecurityIssue.toValue)) :
    r.severityCounts = .ok (tableOf (countOf issues)) := by
  induction issues using reverseRecOn generalizing r with
  | nil =>
    rw [severityCounts, h]
    rfl
  | append_singleton issues i ih =>
    obtain ⟨text, htext⟩ := htexts i (by simp)
    have hlevel := level?_of_text htext
    have hbefore := @ih { r with issues := .list (issues.map SecurityIssue.toValue) }
      (fun j hj => htexts j (by simp [hj])) rfl
    change foldlM _ _ (issues.map SecurityIssue.toValue) = _ at hbefore
    rw [severityCounts, h]
    change foldlM _ _ ((issues ++ [i]).map SecurityIssue.toValue) = _
    rw [map_append, foldlM_append, hbefore, countOf_append hlevel]
    simp only [map_cons, map_nil, foldlM_cons, foldlM_nil, i.member_severity, htext, textFor,
      ok_bind, pure_eq_ok, Except.ok.injEq, tableOf, map_map]
    refine map_congr_left fun other _ => ?_
    by_cases ho : other = lowerText text <;> simp [bump, ho, nat]

theorem filterM_map {α β : Type} {f : β → α} {p : α → Outcome Bool} {q : β → Bool} {bs : List β}
    (h : ∀ b ∈ bs, p (f b) = .ok (q b)) : (bs.map f).filterM p = .ok ((bs.filter q).map f) := by
  have hall : ∀ acc, (bs.map f).filterAuxM p acc = .ok (((bs.filter q).map f).reverse ++ acc) := by
    induction bs with
    | nil => exact fun acc => rfl
    | cons b rest ih =>
      intro acc
      have hrest := ih fun c hc => h c (by simp [hc])
      rw [map_cons, filterAuxM, h b (by simp)]
      cases hb : q b <;> simpa [hb] using hrest _
  simp [filterM, hall]

theorem issuesWith_of_kept (htexts : ∀ i ∈ issues, ∃ s, i.severity = .text s)
    (h : r.issues = .list (issues.map SecurityIssue.toValue)) (level : String) :
    r.issuesWith "severity" (.text level) =
      .ok ((issues.filter (·.level? = some (lowerText level))).map SecurityIssue.toValue) := by
  rw [issuesWith, h]
  refine filterM_map fun i hi => ?_
  obtain ⟨text, htext⟩ := htexts i hi
  rw [i.member_severity, htext, level?_of_text htext]
  simp [textFor, Bool.beq_eq_decide_eq]

structure Counts (r : Results) (issues : List SecurityIssue) : Prop where
  texts : ∀ i ∈ issues, ∃ s, i.severity = .text s
  kept : r.issues = .list (issues.map SecurityIssue.toValue)
  quality : r.quality = {}
  summary : ∃ summary : Entries, r.summary = .object summary ∧
    summary.lookup "severity_counts" = some (.object (tableOf (countOf issues)))

variable (h : r.Counts issues)

include h

theorem Counts.add {text : String}
    (htext : i.severity = .text text) : ∃ s, r.next (.add i) = .ok s ∧ s.Counts (issues ++ [i]) := by
  have hlevel := level?_of_text htext
  obtain ⟨summary, hsummary, hcounts⟩ := h.summary
  obtain ⟨counted, hcounted, hnew⟩ := countSeverity_eq hcounts (lowerText text)
  let kept := issues.map SecurityIssue.toValue ++ [i.toValue]
  refine ⟨{ r with issues := .list kept, summary := .object counted }, ?_, ?_⟩
  · simp [next, Results.add, appendIssue, h.kept, htext, textFor, hsummary, hcounted, Except.map, kept]
  · refine ⟨?_, by simp [kept], h.quality, counted, rfl, by rw [countOf_append hlevel, hnew]⟩
    intro j hj
    rcases mem_append.mp hj with hj | hj
    · exact h.texts j hj
    · exact mem_singleton.mp hj ▸ ⟨text, htext⟩

theorem Counts.update : ∃ s, r.next .update = .ok s ∧ s.Counts issues := by
  obtain ⟨summary, hsummary, -⟩ := h.summary
  have hcounts := severityCounts_of_kept h.texts h.kept
  have hupdate : r.update = .ok { r with summary := .object (merge summary [
      ("total_issues", .nat issues.length), ("severity_counts", .object (tableOf (countOf issues))),
      ("complexity_score", .float 0.0), ("maintainability_index", .float 0.0), ("complex_functions_count", .nat 0),
      ("style_issues_count", .nat 0)]) } := by
    simp [Results.update, hcounts, hsummary, h.kept, h.quality, size]
  refine ⟨_, hupdate, h.texts, h.kept, h.quality, _, rfl, ?_⟩
  rw [lookup_merge (by simp [Distinct])]
  rfl

theorem Counts.next {c : Call} (hc : ∀ i, c = .add i → ∃ s, i.severity = .text s) :
    ∃ s, r.next c = .ok s ∧ s.Counts (issues ++ c.issue?.toList) := by
  cases c with
  | add i =>
    obtain ⟨text, htext⟩ := hc i rfl
    exact h.add htext
  | setCode code =>
    rw [show issues ++ (Call.setCode code).issue?.toList = issues from append_nil issues]
    exact ⟨{ r with code }, rfl, h.texts, h.kept, h.quality, h.summary⟩
  | update =>
    rw [show issues ++ Call.update.issue?.toList = issues from append_nil issues]
    exact h.update

theorem Counts.run {calls : List Call} (hcalls : ∀ i, .add i ∈ calls → ∃ s, i.severity = .text s) :
    ∃ s, calls.foldlM Results.next r = .ok s ∧ s.Counts (issues ++ calls.filterMap Call.issue?) := by
  induction calls generalizing r issues with
  | nil => exact ⟨r, rfl, by simpa using h⟩
  | cons c rest ih =>
    obtain ⟨s, hs, hcounts⟩ := h.next (c := c) fun i hi => hcalls i (by simp [hi])
    obtain ⟨t, ht, hend⟩ := ih hcounts fun i hi => hcalls i (by simp [hi])
    have hissues : (c :: rest).filterMap Call.issue? = c.issue?.toList ++ rest.filterMap Call.issue? := by
      cases c <;> rfl
    rw [foldlM_cons, hs, hissues, ← append_assoc]
    exact ⟨t, ht, hend⟩

omit h

theorem lowerText_level : ∀ level ∈ severityLevels, lowerText level = level := by decide

/-- Calls on new results always go well. After them the table in the summary has for each level the
number of problems that are listed for it, and all added problems are there, in their order. -/
theorem severity_counts_agree (file : String) (now : Time.DateTime) {calls : List Call}
    (hcalls : ∀ i, .add i ∈ calls → ∃ s, i.severity = .text s) :
    ∃ r counts, (new (.text file) now (.object []) (.object []) >>= calls.foldlM next) = .ok r ∧
      r.issues = .list ((calls.filterMap Call.issue?).map SecurityIssue.toValue) ∧
      r.summary.member "severity_counts" = .ok (.object counts) ∧ r.severityCounts = .ok counts ∧
      ∀ level ∈ severityLevels, ∃ found, r.issuesWith "severity" (.text level) = .ok found ∧
        counts.lookup level = some (.nat found.length) := by
  have hnew : Counts { file, timestamp := now, summary := firstSummary (.object []) } [] :=
    ⟨by simp, rfl, rfl, _, rfl, rfl⟩
  obtain ⟨r, hrun, hcounts⟩ := hnew.run hcalls
  obtain ⟨summary, hsummary, hlookup⟩ := hcounts.summary
  refine ⟨r, _, hrun, hcounts.kept, ?_, severityCounts_of_kept hcounts.texts hcounts.kept, ?_⟩
  · rw [hsummary]
    exact Value.member_object hlookup
  · intro level hlevel
    refine ⟨_, issuesWith_of_kept hcounts.texts hcounts.kept level, ?_⟩
    rw [lookup_tableOf _ hlevel, lowerText_level level hlevel, List.length_map, countOf, List.countP_eq_length_filter]

def issueOf (severity : String) : SecurityIssue where
  severity := .text severity
  confidence := .text "high"
  type := .text "B102"
  description := .text ""
  line := .int 1
  code := .text ""
  weaknesses := .list []
  file := .text "a.py"

def someCalls : List Call := [
  .add (issueOf "HIGH"), .add (issueOf "unknown"), .update, .setCode (.text "x = 1"), .add (issueOf "Low"), .update]

theorem severity_counts_agree_someCalls : (∀ i, .add i ∈ someCalls → ∃ s, i.severity = .text s) ∧
    ∃ r counts,
      (new (.text "a.py") ⟨19723, 0, none⟩ (.object []) (.object []) >>=
        someCalls.foldlM next) = .ok r ∧
      r.summary.member "severity_counts" = .ok (.object counts) ∧
      ∀ level ∈ severityLevels, ∃ found, r.issuesWith "severity" (.text level) = .ok found ∧
        counts.lookup level = some (.nat found.length) := by
  have hcalls : ∀ i, .add i ∈ someCalls → ∃ s, i.severity = .text s := by simp [someCalls, issueOf]
  obtain ⟨r, counts, hrun, -, hsummary, -, hlevels⟩ := severity_counts_agree "a.py" ⟨19723, 0, none⟩ hcalls
  exact ⟨hcalls, r, counts, hrun, hsummary, hlevels⟩

end Results

/-! Adding a problem to results lists it before it counts it. A problem that cannot be counted is
therefore listed although adding it fails. -/

namespace Value

variable {v new old : Value} {key : String}

theorem filterMap_putPair (pairs : List (Value × Value)) :
    (putPair (.text key) new pairs).filterMap textKey? = put key new (pairs.filterMap textKey?) := by
  induction pairs with
  | nil => rfl
  | cons e rest ih =>
    obtain ⟨k, old⟩ := e
    cases k with
    | text name =>
      by_cases hname : name = key
      · simp [putPair, equals, textKey?, put, hname]
      · simpa [putPair, equals, textKey?, put, hname] using ih
    | _ =>
      rw [putPair, if_neg (by simp [equals, number?])]
      exact ih

theorem assign_of_member (h : v.member key = .ok old) (new : Value) :
    ∃ w, v.assign key new = .ok w ∧ w.member key = .ok new ∧ ∀ other ≠ key, w.member other = v.member other := by
  cases v with
  | object entries =>
    refine ⟨_, rfl, by simp [member, lookup_put], fun other hother => ?_⟩
    simp [member, lookup_put, hother]
  | mapping pairs =>
    refine ⟨_, rfl, by simp [member, findText?, filterMap_putPair, lookup_put], fun other hother => ?_⟩
    simp [member, findText?, filterMap_putPair, lookup_put, hother]
  | _ => simp [member] at h

theorem holds_of_member (h : v.member key = .ok old) : v.holds key = .ok true := by
  cases v with
  | object | mapping =>
    rw [member] at h
    split at h <;> simp_all [holds]
  | _ => simp [member] at h

def plusOne (v : Value) : Outcome Value := arith "+=" Num.add v (.int 1)

theorem plusOne_isOk_iff : (∃ more, v.plusOne = .ok more) ↔ v.number?.isSome := by
  cases v with
  | int | bool | float => exact iff_of_true ⟨_, rfl⟩ rfl
  | _ => simp [plusOne, arith, number?]

end Value

namespace Results

open Value

/-- One more problem of this level in the table of a summary, which is as it was in all other
places. A level that the table does not have is not counted. -/
def OneMore (level : String) (before after : Value) : Prop :=
  ∃ counts, before.member "severity_counts" = .ok counts ∧
    ((counts.holds level = .ok false ∧ after = before) ∨
      ∃ n more counted, counts.member level = .ok n ∧ n.plusOne = .ok more ∧
        after.member "severity_counts" = .ok counted ∧ counted.member level = .ok more ∧
        (∀ other ≠ level, counted.member other = counts.member other) ∧
        ∀ other ≠ "severity_counts", after.member other = before.member other)

def Countable (level : String) (summary : Value) : Prop :=
  ∃ counts, summary.member "severity_counts" = .ok counts ∧
    (counts.holds level = .ok false ∨ ∃ n, counts.member level = .ok n ∧ n.number?.isSome)

inductive AddsOrLeaves (r : Results) (issue : SecurityIssue) : Prop where
  | adds (items : List Value) (level : String) (summary : Value) (hitems : r.issues = .list items)
    (hlevel : issue.level? = some level) (hmore : OneMore level r.summary summary)
    (hadd : r.add issue = (.ok (), { r with issues := .list (items ++ [issue.toValue]), summary }))
  | leaves (f : Fault) (hadd : r.add issue = (.error f, r))

variable {r : Results} {issue : SecurityIssue} {summary : Value} {level : String} {items : List Value}

theorem countSeverity_of_countable (h : Countable level summary) :
    ∃ after, countSeverity summary level = .ok after ∧ OneMore level summary after := by
  obtain ⟨counts, hcounts, habsent | ⟨n, hn, hnumber⟩⟩ := h
  · refine ⟨summary, ?_, counts, hcounts, .inl ⟨habsent, rfl⟩⟩
    simp [countSeverity, hcounts, habsent]
  · obtain ⟨more, hmore⟩ := plusOne_isOk_iff.mpr hnumber
    obtain ⟨counted, hcounted, hlevel, hothers⟩ := assign_of_member hn more
    obtain ⟨after, hafter, htable, hrest⟩ := assign_of_member hcounts counted
    refine ⟨after, ?_, counts, hcounts, .inr ⟨n, more, counted, hn, hmore, htable, hlevel, hothers, hrest⟩⟩
    rw [plusOne] at hmore
    simp [countSeverity, hcounts, holds_of_member hn, hn, hmore, hcounted, hafter]

theorem countable_of_countSeverity {after : Value} (h : countSeverity summary level = .ok after) :
    Countable level summary := by
  obtain ⟨counts, hcounts, h⟩ := bind_eq_ok_iff.mp h
  obtain ⟨held, hheld, h⟩ := bind_eq_ok_iff.mp h
  refine ⟨counts, hcounts, ?_⟩
  cases held with
  | false => exact .inl hheld
  | true =>
    obtain ⟨n, hn, h⟩ := bind_eq_ok_iff.mp h
    obtain ⟨more, hmore, -⟩ := bind_eq_ok_iff.mp h
    exact .inr ⟨n, hn, plusOne_isOk_iff.mp ⟨more, hmore⟩⟩

theorem adds_of_countable (hitems : r.issues = .list items) (hlevel : issue.level? = some level)
    (h : Countable level r.summary) : AddsOrLeaves r issue := by
  obtain ⟨after, hafter, hmore⟩ := countSeverity_of_countable h
  refine .adds items level after hitems hlevel hmore ?_
  cases hseverity : issue.severity with
  | text s =>
    obtain rfl : lowerText s = level := by simpa [SecurityIssue.level?, hseverity] using hlevel
    simp [add, appendIssue, hitems, hseverity, textFor, hafter]
  | _ => simp [SecurityIssue.level?, hseverity] at hlevel

theorem listed_of_not_countable (hitems : r.issues = .list items)
    (h : ¬ ∃ level ∈ issue.level?, Countable level r.summary) :
    ∃ f, r.add issue = (.error f, { r with issues := .list (items ++ [issue.toValue]) }) := by
  cases hseverity : issue.severity with
  | text s =>
    cases hcount : countSeverity r.summary (lowerText s) with
    | ok after => exact absurd ⟨_, level?_of_text hseverity, countable_of_countSeverity hcount⟩ h
    | error f => exact ⟨f, by simp [add, appendIssue, hitems, hseverity, textFor, hcount]⟩
  | _ => exact ⟨_, by simp only [add, appendIssue, hitems, hseverity, textFor]; rfl⟩

theorem addsOrLeaves_iff : AddsOrLeaves r issue ↔
    (∀ items, r.issues ≠ .list items) ∨ ∃ level ∈ issue.level?, Countable level r.summary := by
  constructor
  · intro h
    by_contra hnot
    push Not at hnot
    obtain ⟨⟨items, hitems⟩, hcount⟩ := hnot
    obtain ⟨f, hadd⟩ := listed_of_not_countable hitems (by simpa using hcount)
    cases h with
    | adds _ _ _ _ _ _ hdone => simp [hadd] at hdone
    | leaves _ hdone =>
      have hsame := congrArg (fun a => a.2.issues) (hadd.symm.trans hdone)
      simp [hitems] at hsame
  · intro h
    cases hissues : r.issues with
    | list items =>
      obtain hother | ⟨level, hlevel, hcount⟩ := h
      · exact absurd hissues (hother items)
      · exact adds_of_countable hissues hlevel hcount
    | _ => exact .leaves _ (by simp only [add, appendIssue, hissues]; rfl)

theorem countable_firstSummary : Countable level (firstSummary summary) ↔
    (summary.truthy → Countable level summary) := by
  cases htruthy : summary.truthy with
  | true => simp [firstSummary, htruthy]
  | false =>
    simp only [firstSummary, htruthy, Bool.false_eq_true, if_false, false_implies, iff_true]
    refine ⟨.object noCounts, rfl, ?_⟩
    by_cases hlevel : level ∈ severityLevels
    · exact .inr ⟨.nat 0, member_object (lookup_tableOf (fun _ => 0) hlevel), rfl⟩
    · have hnone : noCounts.lookup level = none :=
        lookup_eq_none (by simpa [noCounts] using hlevel)
      simp [holds, hnone]

theorem ofValue_eq_ok {v : Value} (h : ofValue v = .ok r) :
    v.member "security_issues" = .ok r.issues ∧ v.member "summary" = .ok r.summary := by
  obtain ⟨_, _, h⟩ := bind_eq_ok_iff.mp h
  obtain ⟨_, _, h⟩ := bind_eq_ok_iff.mp h
  obtain ⟨timestamp, _, h⟩ := bind_eq_ok_iff.mp h
  split at h
  · simp only [bind_eq_ok_iff] at h
    obtain ⟨_, _, issues, hissues, _, _, _, _, summary, hsummary, _, _, _, _, hr⟩ := h
    cases hr
    exact ⟨hissues, hsummary⟩
  · cases h

/-- Results of an analysis that was not done never take a problem as they should. New results do if
the severity is a text and a summary that was given can count it, and results that were read do if
the summary in the data can. In the other cases the problem is listed, and adding it fails. -/
theorem adds_or_leaves_iff_countable (issue : SecurityIssue) :
    (∀ now, ¬ AddsOrLeaves (notDone now) issue) ∧
    (∀ file now summary metadata r, new file now summary metadata = .ok r →
      (AddsOrLeaves r issue ↔ ∃ level ∈ issue.level?, summary.truthy → Countable level summary)) ∧
    (∀ v r, ofValue v = .ok r → ∃ issues summary, v.member "security_issues" = .ok issues ∧
      v.member "summary" = .ok summary ∧ (AddsOrLeaves r issue ↔
        (∀ items, issues ≠ .list items) ∨ ∃ level ∈ issue.level?, Countable level summary)) ∧
    ∀ r, ¬ AddsOrLeaves r issue → ∃ f items, r.issues = .list items ∧
      r.add issue = (.error f, { r with issues := .list (items ++ [issue.toValue]) }) := by
  refine ⟨fun now h => ?_, fun file now summary metadata r h => ?_, fun v r h => ?_, fun r h => ?_⟩
  · obtain hother | ⟨_, _, _, hmember, _⟩ := addsOrLeaves_iff.mp h
    · exact hother [] rfl
    · cases hmember
  · obtain ⟨_, _, hr⟩ := bind_eq_ok_iff.mp h
    cases hr
    rw [addsOrLeaves_iff]
    simp [countable_firstSummary]
  · obtain ⟨hissues, hsummary⟩ := ofValue_eq_ok h
    exact ⟨_, _, hissues, hsummary, addsOrLeaves_iff⟩
  · rw [addsOrLeaves_iff, not_or] at h
    obtain ⟨items, hitems⟩ := not_forall_not.mp h.1
    obtain ⟨f, hadd⟩ := listed_of_not_countable hitems h.2
    exact ⟨f, items, hitems, hadd⟩

theorem adds_or_leaves_iff_countable_new :
    ∃ r, new (.text "a.py") ⟨19723, 0, none⟩ (.object []) (.object []) = .ok r ∧
      AddsOrLeaves r (issueOf "HIGH") := by
  have hnew : new (.text "a.py") ⟨19723, 0, none⟩ (.object []) (.object []) = .ok _ := rfl
  refine ⟨_, hnew, ((adds_or_leaves_iff_countable _).2.1 _ _ _ _ _ hnew).mpr ⟨_, rfl, fun h => ?_⟩⟩
  cases h

/-- A problem that cannot be counted is listed all the same. -/
theorem uncounted_problem_listed : ∃ (now : Time.DateTime) (issue : SecurityIssue),
    (notDone now).issues = .list [] ∧ (notDone now).add issue =
      (.error (.missingKey "severity_counts"),
        { notDone now with issues := .list [issue.toValue] }) :=
  ⟨⟨19723, 0, none⟩, issueOf "high", rfl, rfl⟩

end Results

/-! What analysing a file found, written as a document and read back: every field of a problem, of
the measures of quality and of the whole returns. -/

theorem SecurityIssue.ofValue_toValue (i : SecurityIssue) : ofValue i.toValue = .ok i := by
  simp [ofValue, toValue, Value.member, Value.fetch, lookup_cons]

theorem CodeQuality.ofValue_toValue (q : CodeQuality) : ofValue q.toValue = .ok q := by
  simp [ofValue, toValue, Value.member, Value.fetch, lookup_cons]

namespace Results

variable {r : Results}

theorem ofValue_toValue (h : r.timestamp.IsReadable) : ofValue r.toValue = .ok r := by
  simp [ofValue, toValue, toEntries, filePath, Value.member, Value.fetch, lookup_cons,
    CodeQuality.ofValue_toValue, Time.DateTime.parse_text_of_readable h]

end Results

end CodeAudit

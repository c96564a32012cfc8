import CodeAudit.Proofs.HistoryFile

/-! The figures of use agree with each other and with what was recorded, over any calls and however
often the program is started again. -/

namespace CodeAudit

open List Keyed

/-! Tables of numbers. -/

namespace Table

def total (t : Table Nat) : Nat := sumOf (t.map (·.2))

variable (key : String)

theorem total_put (n : Nat) (t : Table Nat) : total (put key n t) + (get? key t).getD 0 = total t + n := by
  have hput := @sumOn_put _ _ _ (fun _ n => n) key (fun _ _ => rfl) n t
  rwa [Option.map_id'] at hput

variable (t : Table Nat)

theorem total_bump : total (bump key t) = total t + 1 := by
  have hput := total_put key ((get? key t).getD 0 + 1) t
  rw [bump]
  omega

theorem le_total {key : String} {n : Nat} {t : Table Nat} (h : (key, n) ∈ t) : n ≤ total t := by
  induction t with
  | nil => cases h
  | cons e rest ih =>
    simp only [total, map_cons, sumOf]
    rcases mem_cons.mp h with rfl | h
    · omega
    · have hrest := ih h
      unfold total at hrest
      omega

def entries : Entries := t.map fun e => (e.1, .nat e.2)

theorem lookup_entries : t.entries.lookup key = (get? key t).map .nat := by
  induction t with
  | nil => rfl
  | cons e rest ih =>
    rw [get?_cons, entries, map_cons, lookup_cons]
    cases key == e.1
    · exact ih
    · simp

theorem put_entries (n : Nat) (t : Table Nat) : Entries.put key (.nat n) t.entries = entries (put key n t) := by
  rw [Entries.put_eq_put]
  induction t with
  | nil => rfl
  | cons e rest ih =>
    rw [put]
    change put key (.nat n) ((e.1, .nat e.2) :: entries rest) = _
    rw [put]
    cases key == e.1
    · simpa [entries] using ih
    · simp [entries]

end Table

namespace Usage

variable {t : Table Nat}

theorem count_table {stats : Entries} {table : String} (h : stats.lookup table = some (.object t.entries))
    (key : String) : count (.object stats) table (.text key) =
      .ok (.object (Entries.put table (.object (Table.entries (bump key t))) stats)) := by
  have hmember := Value.member_object h
  have hold : (t.entries.lookup key).getD (.int 0) = .nat ((get? key t).getD 0) := by
    rw [Table.lookup_entries]
    cases get? key t <;> rfl
  simp only [count, hmember, Value.fetchAt_object, hold, Value.add_one, Value.assignAt,
    Value.assign, Table.put_entries, ok_bind]
  rfl

/-! Figures and calls. -/

structure Figures where
  analyses : Nat := 0
  services : Table Nat := []
  dates : Table Nat := []
  errors : Nat := 0

def Figures.toValue (f : Figures) : Value := .object [
  ("total_analyses", .nat f.analyses), ("analyses_by_service", .object f.services.entries),
  ("analyses_by_date", .object f.dates.entries), ("errors", .nat f.errors)]

inductive Event where
  | analysis (now : Time.DateTime) (service : String)
  | error
  | restart (env : Config.Environment)

def Event.isAnalysis : Event → Bool
  | .analysis _ _ => true
  | .error | .restart _ => false

def Event.isError : Event → Bool
  | .error => true
  | .analysis _ _ | .restart _ => false

def happen (u : Usage) : Event → Outcome Unit × Usage
  | .analysis now service => u.recordAnalysis now (.text service)
  | .error => u.recordError
  | .restart env => (.ok (), openFile env u.file)

def next (u : Usage) (e : Event) : Outcome Usage := (u.happen e).1.map fun _ => (u.happen e).2

def recorded (enabled : Bool) : List Event → List Event
  | [] => []
  | .restart env :: rest => recorded (isEnabled env) rest
  | e :: rest => if enabled then e :: recorded enabled rest else recorded enabled rest

def Figures.add (f : Figures) : Event → Figures
  | .analysis now service => { f with
      analyses := f.analyses + 1, services := Keyed.bump service f.services,
      dates := Keyed.bump (Time.Date.ofDays now.day).text f.dates }
  | .error => { f with errors := f.errors + 1 }
  | .restart _ => f

def figures (done : List Event) : Figures := done.foldl Figures.add {}

variable {u : Usage} {f : Figures}

theorem recordAnalysis_figures (henabled : u.enabled) (hstats : u.stats = f.toValue)
    (now : Time.DateTime) (service : String) : u.recordAnalysis now (.text service) =
      (.ok (), save { u with stats := (f.add (.analysis now service)).toValue }) := by
  have htotal : increment f.toValue "total_analyses" = .ok { f with analyses := f.analyses + 1 }.toValue := rfl
  have hservice (g : Figures) : count g.toValue "analyses_by_service" (.text service) =
      .ok { g with services := bump service g.services }.toValue := count_table rfl service
  have hdate (g : Figures) (date : String) : count g.toValue "analyses_by_date" (.text date) =
      .ok { g with dates := bump date g.dates }.toValue := count_table rfl date
  simp [recordAnalysis, henabled, apply, hstats, htotal, hservice, hdate, Figures.add]

theorem recordError_figures (henabled : u.enabled) (hstats : u.stats = f.toValue) :
    u.recordError = (.ok (), save { u with stats := (f.add .error).toValue }) := by
  have herrors : increment f.toValue "errors" = .ok (f.add .error).toValue := rfl
  simp [recordError, henabled, apply, hstats, herrors]

/-! What the figures of some calls say. -/

theorem figures_append (done : List Event) (e : Event) : figures (done ++ [e]) = (figures done).add e := by
  simp [figures]

structure Figures.Tally (f : Figures) (done : List Event) : Prop where
  analyses : f.analyses = done.countP (·.isAnalysis)
  errors : f.errors = done.countP (·.isError)
  services : f.services.total = f.analyses
  dates : f.dates.total = f.analyses
  distinctServices : f.services.entries.Distinct
  distinctDates : f.dates.entries.Distinct

theorem distinct_bump (h : t.entries.Distinct) (key : String) : (Table.entries (bump key t)).Distinct := by
  rw [bump, ← Table.put_entries]
  exact h.put key _

theorem tally_figures (done : List Event) : (figures done).Tally done := by
  induction done using List.reverseRecOn with
  | nil => exact ⟨rfl, rfl, rfl, rfl, nodup_nil, nodup_nil⟩
  | append_singleton done e ih =>
    rw [figures_append]
    cases e with
    | analysis now service =>
      refine ⟨?_, ?_, ?_, ?_, distinct_bump ih.distinctServices _, distinct_bump ih.distinctDates _⟩
      · simp [Figures.add, Event.isAnalysis, ih.analyses]
      · simp [Figures.add, Event.isError, ih.errors]
      · exact (Table.total_bump _ _).trans (congrArg (· + 1) ih.services)
      · exact (Table.total_bump _ _).trans (congrArg (· + 1) ih.dates)
    | error | restart env =>
      refine ⟨?_, ?_, ih.services, ih.dates, ih.distinctServices, ih.distinctDates⟩
      · simp [Figures.add, Event.isAnalysis, ih.analyses]
      · simp [Figures.add, Event.isError, ih.errors]

open Json

theorem isDocument_nat {n levels : Nat} (h : n < 10 ^ maxDigits) : isDocument levels (.nat n) := by
  simp only [Value.nat, isDocument, decide_eq_true_eq]
  exact (Nat.length_toDigits_le_iff (by decide) (by decide)).mpr h

theorem isDocument_table {levels : Nat} (hdistinct : t.entries.Distinct) (h : t.total < 10 ^ maxDigits) :
    isDocument (levels + 1) (.object t.entries) := by
  refine isDocument_object.mpr ⟨Nat.succ_pos levels, hdistinct, ?_⟩
  intro e he
  obtain ⟨⟨key, n⟩, hn, rfl⟩ := mem_map.mp he
  exact isDocument_nat (Nat.lt_of_le_of_lt (Table.le_total hn) h)

variable {done : List Event}

theorem isDocument_figures (h : done.length < 10 ^ maxDigits) : isDocument maxDepth (figures done).toValue := by
  have htally := tally_figures done
  have hanalyses : (figures done).analyses < 10 ^ maxDigits :=
    Nat.lt_of_le_of_lt (htally.analyses ▸ countP_le_length) h
  have herrors : (figures done).errors < 10 ^ maxDigits := Nat.lt_of_le_of_lt (htally.errors ▸ countP_le_length) h
  refine isDocument_object.mpr ⟨by decide, by simp [Entries.Distinct], ?_⟩
  simp only [mem_cons, not_mem_nil, or_false, forall_eq_or_imp, forall_eq]
  exact ⟨isDocument_nat hanalyses, isDocument_table htally.distinctServices (htally.services ▸ hanalyses),
    isDocument_table htally.distinctDates (htally.dates ▸ hanalyses), isDocument_nat herrors⟩

structure Holds (u : Usage) (done : List Event) : Prop where
  stats : u.stats = (figures done).toValue
  file : u.file = if done.isEmpty then none else some (write { indent := some 2 } u.stats)

theorem Holds.save (u : Usage) (done : List Event) (e : Event) :
    Holds (save { u with stats := ((figures done).add e).toValue }) (done ++ [e]) :=
  ⟨by rw [figures_append]; rfl, by simp [Usage.save]⟩

variable (h : u.Holds done) (hshort : done.length < 10 ^ maxDigits)

include h hshort

theorem Holds.parse_file : u.file.map parse = if done.isEmpty then none else some (.ok u.stats) := by
  have hdoc := isDocument_figures hshort
  rw [← h.stats] at hdoc
  rw [h.file]
  cases done with
  | nil => rfl
  | cons e rest => simp [parse_write { indent := some 2 } rfl hdoc]

theorem Holds.openFile (env : Config.Environment) : Holds (openFile env u.file) done := by
  have hread : statsOf u.file = u.stats := by
    have hparse := h.parse_file hshort
    have hfile := h.file
    cases done with
    | nil =>
      rw [hfile]
      exact h.stats.symm
    | cons e rest =>
      rw [isEmpty_cons, if_neg Bool.false_ne_true] at hfile hparse
      rw [hfile, Option.map_some, Option.some.injEq] at hparse
      simp [hfile, statsOf, hparse, Except.toOption]
  exact ⟨hread.trans h.stats, by simpa [Usage.openFile, hread] using h.file⟩

theorem Holds.next (e : Event) : ∃ v more, u.next e = .ok v ∧ v.Holds (done ++ more) ∧ more.length ≤ 1 ∧
      ∀ rest, recorded u.enabled (e :: rest) = more ++ recorded v.enabled rest := by
  have hsame : u.Holds (done ++ []) := by simpa using h
  cases e with
  | restart env =>
    have hopen := h.openFile hshort env
    exact ⟨Usage.openFile env u.file, [], rfl, by simpa using hopen, by simp, fun _ => rfl⟩
  | analysis now service =>
    cases henabled : u.enabled with
    | false =>
      refine ⟨u, [], ?_, hsame, by simp, by simp [recorded, henabled]⟩
      simp [Usage.next, happen, recordAnalysis, henabled, Except.map]
    | true =>
      refine ⟨_, [.analysis now service], ?_, Holds.save u done _, by simp, by simp [recorded, henabled, Usage.save]⟩
      simp [Usage.next, happen, recordAnalysis_figures henabled h.stats, Except.map]
  | error =>
    cases henabled : u.enabled with
    | false =>
      refine ⟨u, [], ?_, hsame, by simp, by simp [recorded, henabled]⟩
      simp [Usage.next, happen, recordError, henabled, Except.map]
    | true =>
      refine ⟨_, [.error], ?_, Holds.save u done _, by simp, by simp [recorded, henabled, Usage.save]⟩
      simp [Usage.next, happen, recordError_figures henabled h.stats, Except.map]

omit hshort

theorem Holds.run {events : List Event} (hshort : done.length + events.length < 10 ^ maxDigits) :
    ∃ v, events.foldlM Usage.next u = .ok v ∧ v.Holds (done ++ recorded u.enabled events) ∧
      (recorded u.enabled events).length ≤ events.length := by
  induction events generalizing u done with
  | nil => exact ⟨u, rfl, by simpa [recorded] using h, Nat.le_refl 0⟩
  | cons e rest ih =>
    rw [length_cons] at hshort
    obtain ⟨v, more, hv, hholds, hmore, hrecorded⟩ := h.next (by omega) e
    obtain ⟨w, hw, hend, hlength⟩ := ih hholds (by rw [length_append]; omega)
    rw [foldlM_cons, hv, hrecorded, ← append_assoc]
    refine ⟨w, hw, hend, ?_⟩
    rw [length_append, length_cons]
    omega

omit h

/-- Every run of calls and new starts from no file on goes well. The total is the number of analyses
that were recorded, both tables add up to it, and the file says the same. The numbers of fewer than
`10 ^ maxDigits` events can be read back. -/
theorem usage_figures_agree (env : Config.Environment) {events : List Event}
    (hshort : events.length < 10 ^ maxDigits) :
    ∃ u f, events.foldlM next (openFile env none) = .ok u ∧ u.stats = Figures.toValue f ∧
      f.analyses = (recorded (isEnabled env) events).countP (·.isAnalysis) ∧
      f.errors = (recorded (isEnabled env) events).countP (·.isError) ∧
      f.services.total = f.analyses ∧ f.dates.total = f.analyses ∧
      u.file.map parse = if (recorded (isEnabled env) events).isEmpty then none
        else some (.ok u.stats) := by
  have hstart : Holds (openFile env none) [] := ⟨rfl, rfl⟩
  obtain ⟨u, hrun, hholds, hlength⟩ := hstart.run (by simpa using hshort)
  rw [List.nil_append] at hholds
  have htally := tally_figures (recorded (isEnabled env) events)
  exact ⟨u, _, hrun, hholds.stats, htally.analyses, htally.errors, htally.services, htally.dates,
    hholds.parse_file (Nat.lt_of_le_of_lt hlength hshort)⟩

def someEvents : List Event := [
  .analysis ⟨19722, 0, none⟩ "a", .error, .restart [("ENABLE_USAGE_STATS", "false")], .analysis ⟨19722, 0, none⟩ "b",
  .restart [], .analysis ⟨19723, 0, none⟩ "a"]

theorem usage_figures_agree_someEvents : someEvents.length < 10 ^ maxDigits ∧
    ∃ u f, someEvents.foldlM next (openFile [] none) = .ok u ∧ u.stats = Figures.toValue f ∧
      f.analyses = 2 ∧ f.errors = 1 ∧ f.services.total = 2 ∧ f.dates.total = 2 ∧
      u.file.map parse = some (.ok u.stats) := by
  have hshort : someEvents.length < 10 ^ maxDigits :=
    Nat.lt_of_lt_of_le (show 6 < 10 ^ 1 by decide) (Nat.pow_le_pow_right (by decide) (by decide))
  have hrecorded : recorded (isEnabled []) someEvents =
      [.analysis ⟨19722, 0, none⟩ "a", .error, .analysis ⟨19723, 0, none⟩ "a"] := by
    have hon : isEnabled [] = true := by decide
    have hoff : isEnabled [("ENABLE_USAGE_STATS", "false")] = false := by decide
    simp [someEvents, recorded, hon, hoff]
  obtain ⟨u, f, hrun, hstats, hanalyses, herrors, hservices, hdates, hfile⟩ := usage_figures_agree [] hshort
  rw [hrecorded] at hanalyses herrors hfile
  replace hanalyses : f.analyses = 2 := hanalyses
  rw [hanalyses] at hservices hdates
  exact ⟨hshort, u, f, hrun, hstats, hanalyses, herrors, hservices, hdates, hfile⟩

end Usage

/-! Analyses that were recorded. Each gets into the history and the figures of use, but neither
answers to the names by which it is asked later. -/

namespace Statistics

open Usage (Figures figures isEnabled)

structure Analysis where
  day : Int
  micros : Nat
  result : Entries
  service : String

namespace Analysis

variable (a : Analysis)

def time : Time.DateTime := ⟨a.day, a.micros, none⟩

def issues : Nat :=
  itemCount (entryOr (entryOr (.object a.result) "security" (.object [])) "security_issues" (.list []))

def event : Usage.Event := .analysis a.time a.service

end Analysis

def opened (env : Config.Environment) : Statistics := { history := .openFile none, usage := .openFile env none }

def next (s : Statistics) (a : Analysis) : Outcome Statistics :=
  let (answer, s) := s.record a.time (.object a.result) (.text a.service)
  answer.map fun _ => s

structure Records (env : Config.Environment) (analyses : List Analysis) (s : Statistics) : Prop where
  enabled : s.usage.enabled = isEnabled env
  records : s.history.records.map (fun r => (r.time, r.issues, r.details)) =
    analyses.map fun a => (a.time, .nat a.issues, .object a.result)
  stats : s.usage.stats = (figures (if isEnabled env then analyses.map Analysis.event else [])).toValue

variable {env : Config.Environment} {analyses : List Analysis} {s : Statistics}

theorem records_opened (env : Config.Environment) : Records env [] (opened env) :=
  ⟨rfl, rfl, by simp [opened, Usage.openFile, Usage.statsOf]; rfl⟩

theorem next_eq (s : Statistics) (a : Analysis) :
    ∃ r : History.Record, (r.time, r.issues, r.details) = (a.time, .nat a.issues, .object a.result) ∧
      s.next a = (s.usage.recordAnalysis a.time (.text a.service)).1.map fun _ =>
        { history := s.history.add r, usage := (s.usage.recordAnalysis a.time (.text a.service)).2 } := ⟨_, rfl, rfl⟩

variable (h : Records env analyses s)

include h

theorem Records.next (a : Analysis) : ∃ t, s.next a = .ok t ∧ Records env (analyses ++ [a]) t := by
  obtain ⟨r, hr, hnext⟩ := next_eq s a
  have hrecords : (s.history.add r).records.map (fun r => (r.time, r.issues, r.details)) =
      (analyses ++ [a]).map fun a => (a.time, .nat a.issues, .object a.result) := by
    rw [map_append, ← h.records]
    exact (map_append).trans (congrArg (_ ++ [·]) hr)
  cases henabled : isEnabled env with
  | false =>
    have husage : s.usage.recordAnalysis a.time (.text a.service) = (.ok (), s.usage) := by
      simp [Usage.recordAnalysis, h.enabled, henabled]
    rw [hnext, husage]
    exact ⟨_, rfl, h.enabled, hrecords, by simpa [henabled] using h.stats⟩
  | true =>
    rw [hnext, Usage.recordAnalysis_figures (h.enabled.trans henabled) h.stats]
    refine ⟨_, rfl, h.enabled, hrecords, ?_⟩
    simp [henabled, Usage.figures_append, Usage.save, Analysis.event]

theorem Records.run (more : List Analysis) :
    ∃ t, more.foldlM Statistics.next s = .ok t ∧ Records env (analyses ++ more) t := by
  induction more generalizing analyses s with
  | nil => exact ⟨s, rfl, by simpa using h⟩
  | cons a rest ih =>
    obtain ⟨t, ht, hrecords⟩ := h.next a
    obtain ⟨u, hu, hend⟩ := ih hrecords
    rw [foldlM_cons, ht]
    exact ⟨u, hu, by simpa using hend⟩

theorem Records.listed : (s.records .null).Perm s.history.records := by
  have hplace : ∀ r ∈ s.history.records, r.time.offset = none := by
    intro r hr
    have hmem : (r.time, r.issues, r.details) ∈ analyses.map fun a => (a.time, .nat a.issues, .object a.result) :=
      h.records ▸ mem_map_of_mem hr
    obtain ⟨a, -, ha⟩ := mem_map.mp hmem
    have htime : a.time = r.time := congrArg Prod.fst ha
    rw [← htime]
    rfl
  rw [Statistics.records, History.newest_null hplace]
  exact mergeSort_perm _ _

theorem Records.listed_eq_nil_iff : s.records .null = [] ↔ analyses = [] := by
  have hlength := congrArg List.length h.records
  rw [length_map, length_map] at hlength
  rw [← length_eq_zero_iff, h.listed.length_eq, hlength, length_eq_zero_iff]

omit h

theorem summary_eq (s : Statistics) : s.summary = .object [] := rfl

theorem clear_eq (s : Statistics) : s.clear = (false, s) := rfl

/-- Every run of recordings goes well: the history gets one record of each analysis, and the figures
count all analyses if they are switched on. Nevertheless the summary reports nothing, and clearing
fails and leaves everything as it is. -/
theorem recorded_not_reported (env : Config.Environment) (analyses : List Analysis) :
    ∃ s, analyses.foldlM next (opened env) = .ok s ∧
      s.history.records.map (fun r => (r.time, r.issues, r.details)) =
        (analyses.map fun a => (a.time, .nat a.issues, .object a.result)) ∧
      (s.records .null).Perm s.history.records ∧
      (∃ f, s.usage.stats = Figures.toValue f ∧
        f.analyses = if isEnabled env then analyses.length else 0) ∧
      s.summary = .object [] ∧ s.clear = (false, s) ∧
        (s.clear.2.records .null = [] ↔ analyses = []) := by
  obtain ⟨s, hrun, h⟩ := (records_opened env).run analyses
  rw [List.nil_append] at h
  refine ⟨s, hrun, h.records, h.listed, ⟨_, h.stats, ?_⟩, summary_eq s, clear_eq s, ?_⟩
  · rw [(Usage.tally_figures _).analyses]
    split
    · rw [List.countP_map]
      exact List.countP_eq_length.mpr fun _ _ => rfl
    · rfl
  · rw [clear_eq]
    exact h.listed_eq_nil_iff

/-- Recorded analyses are in no summary, and clearing them fails. -/
theorem recorded_not_cleared :
    ∃ (a : Analysis) (s : Statistics), a.issues = 1 ∧ [a].foldlM next (opened []) = .ok s ∧
    s.summary = .object [] ∧ s.clear.1 = false ∧ s.clear.2.records .null ≠ [] := by
  obtain ⟨s, hrun, h⟩ := (records_opened []).run
    [⟨0, 0, [("security", .object [("security_issues", .list [.null])])], "openai"⟩]
  exact ⟨_, s, rfl, hrun, rfl, rfl, fun hnil => by cases h.listed_eq_nil_iff.mp hnil⟩

end Statistics

end CodeAudit

import CodeAudit.Proofs.AnalyzerLife
import CodeAudit.Proofs.FloatBounds

/-! What an analyzer that has a job answers, whatever the programs it calls do. One kind has no
category and cannot tell its failures. -/

namespace CodeAudit

open List Value

variable {items : List Value} {tools : Toolbox}

namespace Value

theorem size_of_parts {v : Value} (h : v.parts = .ok items) : v.size = .ok items.length := by
  cases v with
  | list xs | object xs | mapping xs | text s => cases h; simp [size, String.length_toList]
  | _ => cases h

end Value

namespace Analyzer

namespace DeadCode

/-- An item whose confidence, if it is given, is a number and whose type, if it is given, is a
text. -/
def IsItem (item : Value) : Prop :=
  ∃ confidence number x word, item.fetch "confidence" (.int 0) = .ok confidence ∧ confidence.number? = some number ∧
    number.toFloat = .ok x ∧ item.fetch "type" (.text "") = .ok (.text word)

def Readable (report : Value) : Prop :=
  ∃ items, report.parts = .ok items ∧ (∀ item ∈ items, IsItem item) ∧
    (items = [] ∨ ∃ y, (Num.int items.length).toFloat = .ok y)

def Searches (tools : Toolbox) : Prop :=
  ∃ reply, tools "vulture" = .done reply ∧
    (reply.output.truthy = false ∨ ∃ s, reply.output = .text s ∧
      (Json.document? s = .ok none ∨ ∃ report, Json.document? s = .ok (some report) ∧ Readable report))

/-! The sum of the confidences is a floating number from the first on, and so is their average. -/

theorem map_eq_ok_iff {α β : Type} {x : Outcome α} {f : α → β} {b : β} :
    x.map f = .ok b ↔ ∃ a, x = .ok a ∧ b = f a := by
  cases x <;> simp [Except.map, eq_comm]

variable {t : Float} {reply : Reply} {item : Value}

theorem arith_add_eq_ok_iff {v total : Value} : arith "+=" Num.add (.float t) v = .ok total ↔
      ∃ number x, v.number? = some number ∧ number.toFloat = .ok x ∧ total = .float (t + x) := by
  have hleft : (float t).number? = some (.float t) := rfl
  cases hnumber : v.number? with
  | none => simp [arith, hnumber]
  | some number =>
    have hadd : Num.add (.float t) number = number.toFloat.map fun x => .float (t + x) := by
      cases number <;> rfl
    simp only [arith, hleft, hnumber, hadd, map_eq_ok_iff]
    constructor
    · rintro ⟨_, ⟨x, hx, rfl⟩, rfl⟩
      exact ⟨number, x, rfl, hx, rfl⟩
    · rintro ⟨_, x, hsame, hx, rfl⟩
      cases hsame
      exact ⟨_, ⟨x, hx, rfl⟩, rfl⟩

theorem toFloat_beq_zero {n : Nat} {y : Float} (hn : 0 < n) (h : (Num.int n).toFloat = .ok y) : (y == 0) = false := by
  have hnearest : floatOfInt? n = some y := by
    simp only [Num.toFloat] at h
    split at h
    · cases h; assumption
    · cases h
  have hsign : decide ((n : Int) < 0) = false := decide_eq_false (by omega)
  simp only [floatOfInt?, Int.natAbs_natCast] at hnearest
  split_ifs at hnearest with hinf
  rw [← Option.some.inj hnearest]
  exact nearestFloat_natCast_beq_zero hn (Bool.eq_false_iff.mpr hinf)

theorem arith_div_eq_ok_iff {n : Nat} {q : Value} (hn : 0 < n) :
    arith "/" (fun a b => (Num.div a b).map .float) (.float t) (.nat n) = .ok q ↔
      ∃ y, (Num.int n).toFloat = .ok y ∧ q = .float (t / y) := by
  have hquotient : ∀ z, Num.div (.float t) (.int n) = .ok z ↔ ∃ y, (Num.int n).toFloat = .ok y ∧ z = t / y := by
    intro z
    change ((Num.int n).toFloat >>= fun y =>
      if y == 0 then .error (.zeroDivision "float division by zero") else .ok (t / y)) = .ok z ↔ _
    rw [bind_eq_ok_iff]
    refine exists_congr fun y => and_congr_right fun hy => ?_
    rw [toFloat_beq_zero hn hy, if_neg Bool.false_ne_true, Except.ok.injEq, eq_comm]
  change ((Num.div (.float t) (.int n)).map Num.float).map ofNum = .ok q ↔ _
  simp only [map_eq_ok_iff, hquotient]
  constructor
  · rintro ⟨_, ⟨_, ⟨y, hy, rfl⟩, rfl⟩, rfl⟩
    exact ⟨y, hy, rfl⟩
  · rintro ⟨y, hy, rfl⟩
    exact ⟨_, ⟨_, ⟨y, hy, rfl⟩, rfl⟩, rfl⟩

/-! The reader succeeds on what was said above and on nothing else. -/

theorem isItem_of_readItem {total shown : Value} {kind : Option Kind}
    (h : readItem (.float t) item = .ok (total, kind, shown)) :
    IsItem item ∧ itemKind item = .ok kind ∧ formatItem item = .ok shown ∧ ∃ t', total = .float t' := by
  obtain ⟨confidence, hconfidence, h⟩ := bind_eq_ok_iff.mp h
  obtain ⟨sum, hsum, h⟩ := bind_eq_ok_iff.mp h
  obtain ⟨kind', hkind, h⟩ := bind_eq_ok_iff.mp h
  obtain ⟨shown', hshown, h⟩ := bind_eq_ok_iff.mp h
  obtain ⟨number, x, hnumber, hx, rfl⟩ := arith_add_eq_ok_iff.mp hsum
  obtain ⟨type, htype, hword⟩ := bind_eq_ok_iff.mp hkind
  cases h
  cases type with
  | text s => exact ⟨⟨confidence, number, x, s, hconfidence, hnumber, hx, htype⟩, hkind, hshown, _, rfl⟩
  | _ => cases hword

theorem readItem_of_isItem (h : IsItem item) (t : Float) :
    ∃ t' read, readItem (.float t) item = .ok (.float t', read) := by
  obtain ⟨confidence, number, x, word, hconfidence, hnumber, hx, htype⟩ := h
  have htotal : arith "+=" Num.add (.float t) confidence = .ok (.float (t + x)) :=
    arith_add_eq_ok_iff.mpr ⟨number, x, hnumber, hx, rfl⟩
  have hkind : itemKind item = .ok (Kind.ofWord? word) := by
    rw [itemKind, htype]
    rfl
  have hshown : ∃ shown, formatItem item = .ok shown := by
    cases item with
    | object entries => exact ⟨_, rfl⟩
    | mapping pairs => exact ⟨_, rfl⟩
    | _ => cases htype
  obtain ⟨shown, hshown⟩ := hshown
  refine ⟨t + x, (Kind.ofWord? word, shown), ?_⟩
  rw [readItem, hconfidence]
  change arith "+=" Num.add (.float t) confidence >>= _ = _
  rw [htotal, hkind, hshown]
  rfl

theorem isItem_of_readItems {read : Value × List (Option Kind × Value)}
    (h : readItems (.float t) items = .ok read) : (∀ item ∈ items, IsItem item) ∧ ∃ t', read.1 = .float t' := by
  induction items generalizing t read with
  | nil =>
    cases h
    exact ⟨fun _ hitem => absurd hitem not_mem_nil, t, rfl⟩
  | cons item items ih =>
    obtain ⟨⟨total, first⟩, hfirst, h⟩ := bind_eq_ok_iff.mp h
    obtain ⟨⟨last, rest⟩, hrest, h⟩ := bind_eq_ok_iff.mp h
    obtain ⟨hitem, -, -, t', rfl⟩ := isItem_of_readItem hfirst
    obtain ⟨hitems, t'', rfl⟩ := ih hrest
    cases h
    exact ⟨forall_mem_cons.mpr ⟨hitem, hitems⟩, t'', rfl⟩

theorem readItems_of_isItem (h : ∀ item ∈ items, IsItem item) (t : Float) :
    ∃ t' read, readItems (.float t) items = .ok (.float t', read) := by
  induction items generalizing t with
  | nil => exact ⟨t, [], rfl⟩
  | cons item items ih =>
    obtain ⟨hitem, hitems⟩ := forall_mem_cons.mp h
    obtain ⟨t', first, hfirst⟩ := readItem_of_isItem hitem t
    obtain ⟨t'', rest, hrest⟩ := ih hitems t'
    refine ⟨t'', first :: rest, ?_⟩
    rw [readItems, hfirst]
    change readItems (.float t') items >>= _ = _
    rw [hrest]
    rfl

theorem processReport_ok_iff (report : Value) : (∃ v, processReport report = .ok v) ↔ Readable report := by
  constructor
  · rintro ⟨v, h⟩
    obtain ⟨count, hsize, h⟩ := bind_eq_ok_iff.mp h
    obtain ⟨items, hparts, h⟩ := bind_eq_ok_iff.mp h
    obtain ⟨⟨total, read⟩, hread, h⟩ := bind_eq_ok_iff.mp h
    obtain ⟨hitems, t, rfl⟩ := isItem_of_readItems hread
    obtain rfl : items.length = count := Except.ok.inj ((size_of_parts hparts).symm.trans hsize)
    refine ⟨items, hparts, hitems, ?_⟩
    by_cases hempty : items = []
    · exact .inl hempty
    · have hpos := length_pos_of_ne_nil hempty
      dsimp only at h
      rw [if_neg hpos.ne'] at h
      obtain ⟨average, haverage, -⟩ := bind_eq_ok_iff.mp h
      obtain ⟨y, hy, -⟩ := (arith_div_eq_ok_iff hpos).mp haverage
      exact .inr ⟨y, hy⟩
  · rintro ⟨items, hparts, hitems, hcount⟩
    obtain ⟨t, read, hread⟩ := readItems_of_isItem hitems 0.0
    rw [processReport, size_of_parts hparts, hparts]
    change ∃ v, readItems (.float 0.0) items >>= _ = _
    rw [hread]
    by_cases hempty : items = []
    · exact ⟨_, if_pos (by rw [hempty]; rfl)⟩
    · have hpos := length_pos_of_ne_nil hempty
      obtain ⟨y, hy⟩ := hcount.resolve_left hempty
      have haverage := (arith_div_eq_ok_iff (t := t) hpos).mpr ⟨y, hy, rfl⟩
      refine ⟨resultValue read items.length (.float (t / y)), (if_neg hpos.ne').trans ?_⟩
      rw [haverage]
      rfl

theorem run_eq_ok_iff {program command : String} :
    tools.run program command = .ok reply ↔ tools command = .done reply := by
  rw [Toolbox.run]
  cases tools command <;> simp

theorem document?_eq_ok_iff {document : Option Value} :
    reply.document? = .ok document ↔ ∃ s, reply.output = .text s ∧ Json.document? s = .ok document := by
  rw [Reply.document?]
  cases reply.output <;> simp

theorem search_ok_iff (tools : Toolbox) : (∃ v, search tools = .ok v) ↔ Searches tools := by
  constructor
  · rintro ⟨v, h⟩
    obtain ⟨reply, hreply, h⟩ := bind_eq_ok_iff.mp h
    refine ⟨reply, run_eq_ok_iff.mp hreply, ?_⟩
    cases htruthy : reply.output.truthy with
    | false => exact .inl rfl
    | true =>
      rw [htruthy] at h
      obtain ⟨document, hdocument, h⟩ := bind_eq_ok_iff.mp h
      obtain ⟨s, hs, hdocument⟩ := document?_eq_ok_iff.mp hdocument
      refine .inr ⟨s, hs, ?_⟩
      cases document with
      | none => exact .inl hdocument
      | some report => exact .inr ⟨report, hdocument, (processReport_ok_iff report).mp ⟨v, h⟩⟩
  · rintro ⟨reply, hreply, houtput⟩
    rw [search, run_eq_ok_iff.mpr hreply]
    change ∃ v, (if !reply.output.truthy then _ else reply.document? >>= _) = _
    rcases houtput with hsilent | ⟨s, hs, houtput⟩
    · rw [hsilent]
      exact ⟨_, rfl⟩
    cases reply.output.truthy with
    | false => exact ⟨_, rfl⟩
    | true =>
      rcases houtput with hnone | ⟨report, hreport, hreadable⟩
      · rw [document?_eq_ok_iff.mpr ⟨s, hs, hnone⟩]
        exact ⟨_, rfl⟩
      · rw [document?_eq_ok_iff.mpr ⟨s, hs, hreport⟩]
        exact (processReport_ok_iff report).mpr hreadable

end DeadCode

theorem withSourceFile_ok_iff {suffix remark : String} {more : List Draft} {work : Outcome Value} {job : Job} :
    (∃ v, (withSourceFile suffix remark more work job).result = .ok v) ↔
      (∃ s, job.code = .text s) ∧ ∃ v, work = .ok v := by
  rw [withSourceFile]
  cases job.code <;> cases work <;> simp [draftText, Except.mapError]

theorem category_of_engine? {modeOf : String → Option Nat} {m : Maker} {e : Engine}
    (hmade : m.engine? tools modeOf = some e) (hm : m ≠ .deadCode) :
    ∃ c, (c, m) ∈ Registry.default ∧ e.category = .ok c := by
  cases m with
  | deadCode => exact absurd rfl hm
  | quality | plain => cases hmade
  | script | typeScript | sql | complexity | securityScan =>
    cases hmade
    exact ⟨_, by decide, rfl⟩

/-- For every kind of analyzer and every order of calls that leaves it ready, an analysis answers
with its result or with the failure told under its category. Only the search for unused code has no
category: it fails if the code is no text or its program prints what cannot be read. -/
theorem analyze_answers_iff {tools : Toolbox} {modeOf : String → Option Nat} {m : Maker}
    {e : Engine} (hmade : m.engine? tools modeOf = some e) (calls : List LifeCall)
    (hready : (({} : Bench).run calls).ready = true) :
    ∃ job, (({} : Bench).run calls).job = some job ∧
      (m ≠ .deadCode → ∃ c, (c, m) ∈ Registry.default ∧
        ((∃ v, (e.analysis job).result = .ok v ∧
          (Bench.analyze e (({} : Bench).run calls)).1 = .ok v) ∨
          ∃ f, (e.analysis job).result = .error f ∧
            (Bench.analyze e (({} : Bench).run calls)).1 = .ok (Bench.failure c f))) ∧
      (m = .deadCode →
        ((∃ s, job.code = .text s) ∧ DeadCode.Searches tools →
          ∃ v, (e.analysis job).result = .ok v ∧
            (Bench.analyze e (({} : Bench).run calls)).1 = .ok v) ∧
        (¬ ((∃ s, job.code = .text s) ∧ DeadCode.Searches tools) →
          (Bench.analyze e (({} : Bench).run calls)).1 = .error (.noAttribute "DEAD_CODE"))) := by
  have hagrees : (({} : Bench).run calls).Agrees [] (account calls) := by
    change ((opened [] 0).run calls).Agrees [] (account calls)
    exact agrees_run (fun _ hmem => absurd hmem List.not_mem_nil) calls
  obtain ⟨job, hjob⟩ := Option.isSome_iff_exists.mp (hagrees.ready.symm.trans hready)
  refine ⟨job, hagrees.job.trans hjob, ?_⟩
  rw [analyze_eq e hready (hagrees.job.trans hjob)]
  constructor
  · intro hm
    obtain ⟨c, hentry, hcategory⟩ := category_of_engine? hmade hm
    exact ⟨c, hentry, e.answer_of_category hcategory _⟩
  · rintro rfl
    cases hmade
    have hresult : (∃ v, ((DeadCode.engine tools).analysis job).result = .ok v) ↔
        (∃ s, job.code = .text s) ∧ DeadCode.Searches tools := by
      rw [← DeadCode.search_ok_iff]
      exact withSourceFile_ok_iff
    rw [← hresult]
    cases ((DeadCode.engine tools).analysis job).result with
    | ok v => exact ⟨fun _ => ⟨v, rfl, rfl⟩, fun h => absurd ⟨v, rfl⟩ h⟩
    | error f => exact ⟨by simp, fun _ => rfl⟩

theorem analyze_answers_iff_missing :
    (Maker.securityScan.engine? (fun _ => .missing) fun _ => none) =
      some (SecurityScan.engine fun _ => .missing) ∧
      ∃ job c f, (c, Maker.securityScan) ∈ Registry.default ∧
        (Bench.analyze (SecurityScan.engine fun _ => .missing)
          (({} : Bench).run [.accept (SecurityScan.engine fun _ => .missing) job])).1 =
            .ok (Bench.failure c f) := by
  obtain ⟨_, hjob, hanswer, -⟩ := analyze_answers_iff
    (show (Maker.securityScan.engine? (fun _ => .missing) fun _ => none) = some _ from rfl)
    [.accept (SecurityScan.engine fun _ => .missing) ⟨.text "import os", .text "a.py"⟩] rfl
  cases hjob
  obtain ⟨c, hentry, ⟨v, hv, -⟩ | ⟨f, -, hf⟩⟩ := hanswer (by decide)
  · cases hv
  · exact ⟨rfl, ⟨.text "import os", .text "a.py"⟩, c, f, hentry, hf⟩

/-- Without its program the search for dead code ends in a fault of its own handler. -/
theorem search_without_program_fails :
    ∃ job, (({} : Bench).run [.accept (DeadCode.engine fun _ => .missing) job]).ready = true ∧
      (Bench.analyze (DeadCode.engine fun _ => .missing)
        (({} : Bench).run [.accept (DeadCode.engine fun _ => .missing) job])).1 =
          .error (.noAttribute "DEAD_CODE") :=
  ⟨⟨.text "import os", .text "a.py"⟩, rfl, rfl⟩

end Analyzer

end CodeAudit

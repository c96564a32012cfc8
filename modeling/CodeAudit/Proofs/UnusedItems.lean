import CodeAudit.Proofs.AnalyzerAnswers

/-! What becomes of the items that a search for unused code reports. -/

namespace CodeAudit.Analyzer.DeadCode

open List Value

/-- The type of an item, in small letters, is the word of a kind. -/
def isOf (k : Kind) (item : Value) : Bool :=
  match item.fetch "type" (.text "") with
  | .ok (.text word) => k.word = lowerText word
  | _ => false

variable {k k' : Kind} {item : Value} {items : List Value} {read : List (Option Kind × Value)}

theorem Kind.mem_all (k : Kind) : k ∈ all := by
  cases k <;> decide

theorem word_injective (h : k.word = k'.word) : k = k' := by
  revert h
  cases k <;> cases k' <;> decide

theorem isOf_unique (h : isOf k item) (h' : isOf k' item) : k = k' := by
  unfold isOf at h h'
  split at h
  · next word htype =>
    rw [htype] at h'
    exact word_injective ((of_decide_eq_true h).trans (of_decide_eq_true h').symm)
  · cases h

theorem ofWord?_eq_some_iff {word : String} : Kind.ofWord? word = some k ↔ k.word = lowerText word := by
  have hfound {k' : Kind} (h : Kind.ofWord? word = some k') : k'.word = lowerText word :=
    of_decide_eq_true (p := k'.word = lowerText word) (by apply find?_some h)
  refine ⟨hfound, fun h => ?_⟩
  cases hk : Kind.ofWord? word with
  | none => exact absurd (decide_eq_true h) (find?_eq_none.mp hk k k.mem_all)
  | some k' => rw [word_injective (h.trans (hfound hk).symm)]

theorem isOf_iff {kind : Option Kind} (h : itemKind item = .ok kind) : isOf k item ↔ kind = some k := by
  obtain ⟨type, htype, h⟩ := bind_eq_ok_iff.mp h
  cases type with
  | text word =>
    cases h
    rw [isOf, htype]
    exact decide_eq_true_iff.trans ofWord?_eq_some_iff.symm
  | _ => cases h

theorem shown_of_readItems {t : Float} {total : Value}
    (h : readItems (.float t) items = .ok (total, read)) (k : Kind) :
    (items.filter (isOf k)).mapM formatItem = .ok (ofKind k read) := by
  induction items generalizing t read with
  | nil =>
    cases h
    rfl
  | cons item items ih =>
    obtain ⟨⟨total', kind, shown⟩, hfirst, h⟩ := bind_eq_ok_iff.mp h
    obtain ⟨-, hkind, hshown, t', rfl⟩ := isItem_of_readItem hfirst
    obtain ⟨⟨last, rest⟩, hrest, h⟩ := bind_eq_ok_iff.mp h
    cases h
    by_cases hk : kind = some k
    · rw [filter_cons_of_pos ((isOf_iff hkind).mpr hk), mapM_cons, hshown]
      change (items.filter (isOf k)).mapM formatItem >>= _ = _
      rw [ih hrest]
      simp [ofKind, hk]
    · rw [filter_cons_of_neg (mt (isOf_iff hkind).mp hk), ih hrest]
      simp [ofKind, hk]

/-- The five lists together are as long as what has a kind. -/
theorem sumOf_filter (items : List Value) : sumOf (Kind.all.map fun k => (items.filter (isOf k)).length) =
    (items.filter fun item => Kind.all.any (isOf · item)).length := by
  induction items with
  | nil => rfl
  | cons item items ih =>
    by_cases hkind : ∃ k, isOf k item
    · obtain ⟨k, hk⟩ := hkind
      have hof (k' : Kind) : isOf k' item = decide (k' = k) := by
        rw [Bool.eq_iff_iff, decide_eq_true_eq]
        exact ⟨fun h => isOf_unique h hk, fun h => h ▸ hk⟩
      have hany : Kind.all.any (isOf · item) := any_eq_true.mpr ⟨k, k.mem_all, hk⟩
      rw [filter_cons_of_pos (p := fun item => Kind.all.any (isOf · item)) hany, length_cons, ← ih]
      cases k <;> simp [Kind.all, sumOf, filter_cons, hof] <;> omega
    · simp_all

theorem resultValue_of_processReport {result : Value} (h : processReport (.list items) = .ok result) :
    ∃ read average, result = resultValue read items.length average ∧
      ∀ k, (items.filter (isOf k)).mapM formatItem = .ok (ofKind k read) := by
  obtain ⟨_, ⟨⟩, h⟩ := bind_eq_ok_iff.mp h
  obtain ⟨_, ⟨⟩, h⟩ := bind_eq_ok_iff.mp h
  obtain ⟨⟨total, read⟩, hread, h⟩ := bind_eq_ok_iff.mp h
  dsimp only at h
  split at h
  · cases h
    exact ⟨read, _, rfl, shown_of_readItems hread⟩
  · obtain ⟨average, -, h⟩ := bind_eq_ok_iff.mp h
    cases h
    exact ⟨read, average, rfl, shown_of_readItems hread⟩

theorem length_of_mapM_eq_ok {α β : Type} {f : α → Outcome β} {as : List α} {bs : List β} (h : as.mapM f = .ok bs) :
    bs.length = as.length := by
  simpa using (congrArg length (mapM_eq_ok_iff.mp h)).symm

/-- A report of items that can be read is answered. Each item stands, in the order of the report, in
the one list of its kind, and the counters are the lengths of the lists. An item whose type is none
of the five words is in the total alone, so the counters add up to the total if and only if no such
item is reported. -/
theorem processReport_partitions_iff (h : Readable (.list items)) :
    ∃ result stats, processReport (.list items) = .ok result ∧ result.member "stats" = .ok stats ∧
      stats.member "total_items" = .ok (.nat items.length) ∧
      ∃ lists : Kind → List Value,
        (∀ k, (items.filter (isOf k)).mapM formatItem = .ok (lists k) ∧
          result.member k.listName = .ok (.list (lists k)) ∧
          stats.member k.listName = .ok (.nat (lists k).length)) ∧
        (∀ item k k', isOf k item → isOf k' item → k = k') ∧
        (sumOf (Kind.all.map fun k => (lists k).length) = items.length ↔
          ∀ item ∈ items, ∃ k, isOf k item) := by
  obtain ⟨result, hresult⟩ := (processReport_ok_iff _).mpr h
  obtain ⟨read, average, rfl, hread⟩ := resultValue_of_processReport hresult
  refine ⟨_, _, hresult, rfl, rfl, fun k => ofKind k read, ?_, fun _ _ _ => isOf_unique, ?_⟩
  · intro k
    refine ⟨hread k, ?_⟩
    cases k <;> exact ⟨rfl, rfl⟩
  · simp only [fun k => length_of_mapM_eq_ok (hread k), sumOf_filter, length_filter_eq_length_iff, any_eq_true]
    exact forall₂_congr fun item _ => exists_congr fun k => and_iff_right k.mem_all

def unusedItem (type : String) : Value := .object [("type", .text type), ("confidence", .int 60)]

theorem isItem_unusedItem (type : String) : IsItem (unusedItem type) :=
  ⟨.int 60, .int 60, 60.0, type, rfl, rfl, by decide, rfl⟩

theorem processReport_partitions_imports :
    let items := [unusedItem "Import", unusedItem "method", unusedItem "import"]
    Readable (.list items) ∧
      ∃ result stats, processReport (.list items) = .ok result ∧ result.member "stats" = .ok stats ∧
        stats.member "total_items" = .ok (.nat 3) ∧ stats.member "unused_imports" = .ok (.nat 2) := by
  intro items
  have hitems : Readable (.list items) := by
    refine ⟨items, rfl, ?_, .inr ⟨3.0, by decide⟩⟩
    simp only [items, forall_mem_cons, isItem_unusedItem, not_mem_nil, true_and, IsEmpty.forall_iff, implies_true]
  obtain ⟨result, stats, hresult, hstats, htotal, lists, hlists, -⟩ := processReport_partitions_iff hitems
  obtain ⟨himports, -, hcount⟩ := hlists .ofImport
  have htwo : (lists .ofImport).length = 2 := (length_of_mapM_eq_ok himports).trans (by decide)
  rw [htwo] at hcount
  exact ⟨hitems, result, stats, hresult, hstats, htotal, hcount⟩

/-- A method is of none of the five kinds: it is counted and shown nowhere. -/
theorem processReport_method_in_no_list :
    ∃ result stats, processReport (.list [unusedItem "method"]) = .ok result ∧
      result.member "stats" = .ok stats ∧ stats.member "total_items" = .ok (.nat 1) ∧
      (∀ k : Kind, result.member k.listName = .ok (.list [])) :=
  ⟨_, _, rfl, rfl, rfl, fun k => by cases k <;> rfl⟩

end CodeAudit.Analyzer.DeadCode

import CodeAudit.Proofs.TimeText
import CodeAudit.Proofs.UnfinishedText
import CodeAudit.Statistics

/-! The file of a history says what the history holds, over any calls of one owner after the
other. -/

namespace CodeAudit.History

open List Json Record

/-! Records and values. -/

variable {r : Record} {levels : Nat}

namespace Record

structure IsStorable (r : Record) : Prop where
  time : r.time.OnCalendar
  document : isDocument (maxDepth - 1) r.toValue = true

theorem ofValue_toValue (h : r.time.OnCalendar) : ofValue r.toValue = .ok r := by
  simp [ofValue, toValue, Value.member, lookup_cons, Time.DateTime.parse_text h]

theorem isDocument_ofValue {v : Value} (hv : isDocument levels v)
    (h : ofValue v = .ok r) : isDocument levels r.toValue := by
  obtain ⟨stamp, -, hstamp⟩ := bind_eq_ok_iff.mp h
  cases stamp with
  | text s =>
    simp only [bind_eq_ok_iff] at hstamp
    obtain ⟨time, -, filename, hfilename, score, hscore, issues, hissues, complexity, hcomplexity, details, hdetails,
      hr⟩ := hstamp
    cases hr
    have hroom := (isDocument_member hv hfilename).1
    refine isDocument_object.mpr ⟨hroom, by simp [Entries.Distinct], ?_⟩
    simp [isDocument, (isDocument_member hv hfilename).2, (isDocument_member hv hscore).2,
      (isDocument_member hv hissues).2, (isDocument_member hv hcomplexity).2, (isDocument_member hv hdetails).2]
  | _ => cases hstamp

end Record

/-! The text of a file. -/

variable {records : List Record} {file : Option String}

theorem mapM_ofValue (h : ∀ r ∈ records, r.time.OnCalendar) : (records.map toValue).mapM ofValue = .ok records := by
  rw [mapM_eq_ok_iff, map_map]
  exact map_congr_left fun r hr => ofValue_toValue (h r hr)

theorem isDocument_records (h : ∀ r ∈ records, r.IsStorable) : isDocument maxDepth (.list (records.map toValue)) := by
  simp only [isDocument, Bool.and_eq_true, areDocuments_iff, mem_map]
  refine ⟨by decide, ?_⟩
  rintro v ⟨r, hr, rfl⟩
  exact (h r hr).document

theorem recordsOf_fileText (h : ∀ r ∈ records, r.IsStorable) : recordsOf (some (fileText records)) = records := by
  have hdoc := isDocument_records h
  have htext : fileText records = write layout (.list (records.map toValue)) := by
    rw [fileText, draft_of_isDocument rfl _ hdoc]
    rfl
  have hread : readFile (fileText records) = .ok records := by
    rw [readFile, htext, parse_write layout rfl hdoc]
    exact mapM_ofValue fun r hr => (h r hr).time
  simp [recordsOf, hread, Except.toOption]

theorem isDocument_of_mem_recordsOf (h : r ∈ recordsOf file) : isDocument (maxDepth - 1) r.toValue := by
  cases file with
  | none => cases h
  | some text =>
    cases hread : readFile text with
    | error f => simp [recordsOf, hread, Except.toOption] at h
    | ok records =>
      have hmem : r ∈ records := by simpa [recordsOf, hread, Except.toOption] using h
      simp only [readFile, bind_eq_ok_iff] at hread
      obtain ⟨v, hparse, items, hitems, hrecords⟩ := hread
      have hmap : .ok r ∈ items.map ofValue := mapM_eq_ok_iff.mp hrecords ▸ mem_map_of_mem hmem
      obtain ⟨item, hitem, hr⟩ := mem_map.mp hmap
      exact isDocument_ofValue (isDocument_of_mem_parts (isDocument_of_parse hparse) hitems hitem) hr

inductive Call where
  | add (r : Record)
  | clear
  | reopen

def next (h : History) : Call → History
  | .add r => h.add r
  | .clear => h.clear
  | .reopen => openFile h.file

def after (file : Option String) (calls : List Call) : History := calls.foldl next (openFile file)

def Call.on (records : List Record) : Call → List Record
  | .add r => records ++ [r]
  | .clear => []
  | .reopen => records

@[simp]
theorem records_openFile (file : Option String) : (openFile file).records = recordsOf file := rfl

structure Keeps (h : History) (records : List Record) : Prop where
  inMemory : h.records = records
  storable : ∀ r ∈ records, r.IsStorable
  inFile : recordsOf h.file = records

theorem keeps_openFile (h : ∀ r ∈ recordsOf file, r.time.OnCalendar) :
    Keeps (openFile file) (recordsOf file) := ⟨rfl, fun r hr => ⟨h r hr, isDocument_of_mem_recordsOf hr⟩, rfl⟩

variable {h : History}

theorem keeps_save (hstorable : ∀ r ∈ h.records, r.IsStorable) : Keeps h.save h.records :=
  ⟨rfl, hstorable, recordsOf_fileText hstorable⟩

theorem Keeps.next (hkeeps : Keeps h records) {c : Call} (hc : ∀ r, c = .add r → r.IsStorable) :
    Keeps (h.next c) (c.on records) := by
  obtain ⟨rfl, hstorable, hfile⟩ := hkeeps
  cases c with
  | add r =>
    have hall : ∀ s ∈ h.records ++ [r], s.IsStorable := by
      intro s hs
      rcases mem_append.mp hs with hs | hs
      · exact hstorable s hs
      · exact mem_singleton.mp hs ▸ hc r rfl
    exact keeps_save hall
  | clear => exact keeps_save (by simp)
  | reopen => exact ⟨hfile, hstorable, hfile⟩

theorem Keeps.after (hkeeps : Keeps h records) {calls : List Call} (hcalls : ∀ r, .add r ∈ calls → r.IsStorable) :
    Keeps (calls.foldl History.next h) (calls.foldl Call.on records) := by
  induction calls generalizing h records with
  | nil => exact hkeeps
  | cons c rest ih =>
    have hfirst := hkeeps.next (c := c) fun r hr => hcalls r (by simp [hr])
    exact ih hfirst fun r hr => hcalls r (by simp [hr])

/-! The order of times. -/

abbrev isNoEarlier (a b : Record) : Bool := decide (b.time.toMicros ≤ a.time.toMicros)

theorem isNoEarlier_trans (a b c : Record) (hab : isNoEarlier a b) (hbc : isNoEarlier b c) : isNoEarlier a c := by
  simp only [decide_eq_true_eq] at *
  omega

theorem isNoEarlier_total (a b : Record) : (isNoEarlier a b || isNoEarlier b a) := by
  simp only [Bool.or_eq_true, decide_eq_true_eq]
  omega

theorem newest_null (hplace : ∀ r ∈ h.records, r.time.offset = none) :
    h.newest .null = .ok (h.records.mergeSort isNoEarlier) := by
  have hmixed : isMixed h.records = false := by
    simp only [isMixed, Bool.and_eq_false_iff, any_eq_false]
    exact .inl fun r hr => by simp [hplace r hr]
  simp [newest, newestFirst, hmixed, limited, Value.truthy]

theorem mergeSort_filter_time (records : List Record) (t : Time.DateTime) :
    (records.mergeSort isNoEarlier).filter (·.time = t) = records.filter (·.time = t) := by
  have hordered : (records.filter (·.time = t)).Pairwise fun a b => isNoEarlier a b := by
    refine List.Pairwise.imp_of_mem ?_ (pairwise_of_forall (R := fun _ _ => True) (by simp))
    intro a b ha hb _
    simp only [mem_filter, decide_eq_true_eq] at ha hb
    simp [ha.2, hb.2]
  have hsub := sublist_mergeSort isNoEarlier_trans isNoEarlier_total hordered filter_sublist
  have hsame := hsub.filter (·.time = t)
  rw [filter_filter] at hsame
  simp only [Bool.and_self] at hsame
  -- the records of one time are a part of the sorted list, and it has no more of them
  refine (hsame.eq_of_length ?_).symm
  exact ((mergeSort_perm records _).filter _).length_eq.symm

/-- Whatever was called and however often the file was opened again, the history holds the records
that the calls leave, and whoever opens its file has the same ones. The list by decreasing time has
them all. -/
theorem reopened_records {file : Option String} (hfile : ∀ r ∈ recordsOf file, r.time.OnCalendar)
    {calls : List Call} (hcalls : ∀ r, .add r ∈ calls → r.IsStorable) :
    (after file calls).records = calls.foldl Call.on (recordsOf file) ∧
    (openFile (after file calls).file).records = (after file calls).records ∧
    ∃ sorted, (after file calls).newest .null = .ok sorted ∧
      sorted.Perm (after file calls).records ∧
      sorted.Pairwise (fun a b => b.time.toMicros ≤ a.time.toMicros) ∧
      ∀ t, sorted.filter (·.time = t) = (after file calls).records.filter (·.time = t) := by
  have hkeeps := (keeps_openFile hfile).after hcalls
  change Keeps (after file calls) _ at hkeeps
  have hplace : ∀ r ∈ (after file calls).records, r.time.offset = none := by
    intro r hr
    rw [hkeeps.inMemory] at hr
    exact (hkeeps.storable r hr).time.offset
  refine ⟨hkeeps.inMemory, hkeeps.inFile.trans hkeeps.inMemory.symm, _, newest_null hplace,
    List.mergeSort_perm _ _, ?_, mergeSort_filter_time _⟩
  simpa using List.pairwise_mergeSort isNoEarlier_trans isNoEarlier_total (after file calls).records

def plainRecord (day : Int) (micros : Nat) (details : Value) : Record where
  time := ⟨day, micros, none⟩
  filename := .text "a.py"
  score := .float 0
  issues := .int 0
  complexity := .float 0
  details

def someCalls : List Call := [
  .add (plainRecord 19723 5 (.object [("n", .int 1)])), .reopen, .add (plainRecord 19722 7 (.list [.null])),
  .add (plainRecord 19723 5 .null)]

theorem reopened_records_someCalls :
    (∀ r ∈ recordsOf none, r.time.OnCalendar) ∧ (∀ r, .add r ∈ someCalls → r.IsStorable) ∧
    (openFile (after none someCalls).file).records = [plainRecord 19723 5 (.object [("n", .int 1)]),
      plainRecord 19722 7 (.list [.null]), plainRecord 19723 5 .null] := by
  have hfile : ∀ r ∈ recordsOf none, r.time.OnCalendar := by simp [recordsOf]
  have hcalls : ∀ r, .add r ∈ someCalls → r.IsStorable := by
    intro r hr
    simp only [someCalls, List.mem_cons, Call.add.injEq, reduceCtorEq, List.not_mem_nil, or_false, false_or] at hr
    rcases hr with rfl | rfl | rfl <;> exact ⟨⟨by decide, by decide, by decide, rfl⟩, by decide⟩
  obtain ⟨hmemory, hsame, -⟩ := reopened_records hfile hcalls
  exact ⟨hfile, hcalls, hsame.trans hmemory⟩

/-- Details with a number for a key can be written, and come back with a text for it. -/
theorem numbered_details_renamed :
    ∃ r : Record, r.time.OnCalendar ∧ isWritable (maxDepth - 1) r.toValue = true ∧
    r.details = .mapping [(.int 1, .text "a")] ∧ (after none [.add r]).records = [r] ∧
    (openFile (after none [.add r]).file).records =
      [{ r with details := .object [("1", .text "a")] }] := by
  have htext : fileText [plainRecord 19723 5 (.mapping [(.int 1, .text "a")])] =
      fileText [plainRecord 19723 5 (.object [("1", .text "a")])] := by
    decide +kernel
  have hback : recordsOf (some (fileText [plainRecord 19723 5 (.object [("1", .text "a")])])) =
      [plainRecord 19723 5 (.object [("1", .text "a")])] := by
    refine recordsOf_fileText fun r hr => ?_
    obtain rfl := mem_singleton.mp hr
    exact ⟨⟨by decide, by decide, by decide, rfl⟩, by decide⟩
  refine ⟨plainRecord 19723 5 (.mapping [(.int 1, .text "a")]),
    ⟨by decide, by decide, by decide, rfl⟩, by decide, rfl, rfl, ?_⟩
  have hfile (r : Record) : (after none [.add r]).file = some (fileText [r]) := rfl
  rw [records_openFile, hfile, htext, hback]
  rfl

/-! Records without a document form. -/

theorem recordsOf_fileText_unwritable (hr : r ∈ records)
    (hdetails : isWritable (maxDepth - 2) r.details = false) : recordsOf (some (fileText records)) = [] := by
  have hrecord : isWritable (maxDepth - 1) r.toValue = false := by
    simp [toValue, isWritable, entriesAreWritable, Nat.sub_sub, hdetails]
  have hstops : (draft layout maxDepth 0 (.list (records.map toValue))).whole = false := by
    rw [draft_whole, Bool.eq_false_iff]
    intro hall
    simp only [isWritable, Bool.and_eq_true, areWritable_iff] at hall
    rw [hall.2 r.toValue (mem_map_of_mem hr)] at hrecord
    cases hrecord
  obtain ⟨f, hf⟩ := parse_of_stopped rfl hstops
  have hread : readFile (fileText records) = .error f := by
    rw [readFile, fileText, hf]
    rfl
  simp [recordsOf, hread, Except.toOption]

theorem recordsOf_file_unwritable (hdetails : isWritable (maxDepth - 2) r.details = false)
    (more : List Record) (h : History) : recordsOf (more.foldl add (h.add r)).file = [] := by
  have hfold : ∀ h' : History, r ∈ h'.records → h'.file = some (fileText h'.records) →
      recordsOf (more.foldl add h').file = [] := by
    induction more with
    | nil =>
      intro h' hmem hfile
      rw [foldl_nil, hfile]
      exact recordsOf_fileText_unwritable hmem hdetails
    | cons s rest ih =>
      intro h' hmem _
      exact ih (h'.add s) (mem_append_left _ hmem) rfl
  exact hfold (h.add r) (mem_append_right _ (mem_singleton_self r)) rfl

/-- A record whose details cannot be written takes all saved ones with it: nothing is found when the
file is opened again. -/
theorem saved_records_lost {r : Record} (hdetails : isWritable (maxDepth - 2) r.details = false)
    (h : History) (more : List Record) : (openFile (more.foldl add (h.add r)).file).records = [] ∧
    ((openFile (h.add r).file).records = (openFile h.file).records ↔
      (openFile h.file).records = []) := by
  simp only [records_openFile]
  refine ⟨recordsOf_file_unwritable hdetails more h, ?_⟩
  rw [show recordsOf (h.add r).file = [] from recordsOf_file_unwritable hdetails [] h]
  exact eq_comm

def oneSaved : History := (openFile none).add (plainRecord 19723 5 (.object [("n", .int 1)]))

def unwritableRecord : Record :=
  plainRecord 19723 6 (.object [("when", .special ⟨"datetime.datetime", "2024-01-01 00:00:00",
    "datetime.datetime(2024, 1, 1, 0, 0)", "2024-01-01T00:00:00"⟩)])

theorem recordsOf_oneSaved : recordsOf oneSaved.file = oneSaved.records := by
  refine recordsOf_fileText fun r hr => ?_
  obtain rfl := mem_singleton.mp hr
  exact ⟨⟨by decide, by decide, by decide, rfl⟩, by decide⟩

theorem saved_records_lost_oneSaved : isWritable (maxDepth - 2) unwritableRecord.details = false ∧
    (openFile (oneSaved.add unwritableRecord).file).records = [] :=
  ⟨by decide, (saved_records_lost (by decide) oneSaved []).1⟩

/-- A record that cannot be written takes the saved ones with it. -/
theorem oneSaved_not_kept :
    ∃ (h : History) (r : Record), isWritable (maxDepth - 2) r.details = false ∧
    (openFile h.file).records = h.records ∧ h.records ≠ [] ∧
      (openFile (h.add r).file).records = [] := by
  simp only [records_openFile]
  refine ⟨oneSaved, unwritableRecord, by decide, recordsOf_oneSaved, ?_, ?_⟩
  · exact List.append_ne_nil_of_right_ne_nil _ (by simp)
  · exact recordsOf_file_unwritable (by decide) [] oneSaved

end CodeAudit.History

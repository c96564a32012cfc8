import CodeAudit.Analyzer.TypeScript
import CodeAudit.Proofs.JsonLine

/-! What becomes of the complaints of a compiler and of a linter. -/

namespace CodeAudit

open List Json Chars Nat Value

namespace Chars

variable {sep : Char} {a : Chars}

theorem splitFirst_append (h : sep ∉ a) (n : Nat) (s : Chars) :
    splitFirst sep (n + 1) (a ++ sep :: s) = a :: splitFirst sep n s := by
  induction a with
  | nil => simp [splitFirst]
  | cons c a ih =>
    rw [mem_cons, not_or] at h
    rw [cons_append, splitFirst, if_neg (Ne.symm h.1), ih h.2]

theorem splitFirst_succ (sep : Char) (n : Nat) (s : Chars) :
    ∃ rest, splitFirst sep (n + 1) s = s.takeWhile (· ≠ sep) :: rest := by
  induction s with
  | nil => exact ⟨[], rfl⟩
  | cons c s ih =>
    obtain ⟨rest, hrest⟩ := ih
    by_cases hc : c = sep
    · exact ⟨splitFirst sep n s, by simp [splitFirst, hc]⟩
    · exact ⟨rest, by simp [splitFirst, hc, hrest]⟩

theorem indexOf_append (h : sep ∉ a) (s : Chars) : indexOf [sep] (a ++ sep :: s) = some a.length := by
  induction a with
  | nil => simp [indexOf, cut, afterPrefix]
  | cons c a ih =>
    rw [mem_cons, not_or] at h
    obtain ⟨p, hp, hlength⟩ := Option.map_eq_some_iff.mp (ih h.2)
    simp [indexOf, cut, afterPrefix, h.1, hp, hlength]

theorem strip_cons_blank {c : Char} (h : isBlank c) (s : Chars) : strip (c :: s) = strip s := by
  simp [strip, dropBoth, h]

end Chars

theorem plain_of_isDigit {c : Char} (h : c.isDigit) :
    (digitValue? c).map digitChar = some c ∧ isBlank c = false ∧ c ≠ '_' ∧ c ≠ '-' ∧ c ≠ '+' := by
  have hbounds : 48 ≤ c.toNat ∧ c.toNat ≤ 57 := by
    simp only [Char.isDigit, Bool.and_eq_true, decide_eq_true_eq] at h
    exact h
  have hc : c = Char.ofNat c.toNat := (Char.ofNat_toNat c).symm
  generalize c.toNat = n at hbounds hc
  obtain ⟨hleast, hgreatest⟩ := hbounds
  subst hc
  interval_cases n <;> decide

theorem dropUnderscores?_of_notMem {s : Chars} (h : '_' ∉ s) (last : Option Char) :
    dropUnderscores? last s = some s := by
  induction s generalizing last with
  | nil => rfl
  | cons c s ih =>
    rw [mem_cons, not_or] at h
    rw [dropUnderscores?, ih h.2]
    · rfl
    · exact fun hc => h.1 hc.symm

theorem strip_of_all {s : Chars} (h : ∀ c ∈ s, isBlank c = false) : strip s = s := by
  have hdrop {t : Chars} (ht : ∀ c ∈ t, isBlank c = false) : t.dropWhile isBlank = t :=
    dropWhile_eq_self_iff.mpr fun hl => by simp [ht]
  rw [strip, dropBoth, dropRight, hdrop h, hdrop (by simpa using h), reverse_reverse]

variable (n : Nat)

theorem intChars?_natText : intChars? (natText n) = some (false, toDigits 10 n) := by
  have hdigits := allDigits_toDigits n
  have hplain : plainDigits (toDigits 10 n) = toDigits 10 n := by
    conv_rhs => rw [← map_id (toDigits 10 n)]
    refine map_congr_left fun c hc => ?_
    obtain ⟨d, hd, hchar⟩ := Option.map_eq_some_iff.mp (plain_of_isDigit (hdigits c hc)).1
    simp [hd, hchar]
  have hscores : '_' ∉ toDigits 10 n := fun hc => (plain_of_isDigit (hdigits _ hc)).2.2.1 rfl
  have hnumber : numberChars? (natText n) = some (toDigits 10 n) := by
    rw [numberChars?, natText, String.toList_ofList, hplain,
      strip_of_all fun c hc => (plain_of_isDigit (hdigits c hc)).2.1, dropUnderscores?_of_notMem hscores]
  have hsign : takeSign (toDigits 10 n) = (false, toDigits 10 n) := by
    unfold takeSign
    split
    · next heq => exact absurd rfl (plain_of_isDigit (hdigits '-' (by simp [heq]))).2.2.2.1
    · next heq => exact absurd rfl (plain_of_isDigit (hdigits '+' (by simp [heq]))).2.2.2.2
    · rfl
  simpa [intChars?, hnumber, hsign, AllDigits] using hdigits

abbrev HasRoom : Prop := (toDigits 10 n).length ≤ maxDigits

theorem intOfText?_natText : intOfText? (natText n) = if HasRoom n then some (n : Int) else none := by
  rw [intOfText?, intChars?_natText]
  simp only [Option.bind_eq_bind, Option.bind_some, digitsValue_toDigits]
  by_cases h : HasRoom n
  · rw [if_pos h, if_neg (not_lt.mpr h)]
    rfl
  · rw [if_neg h, if_pos (Nat.lt_of_not_le h)]

namespace Analyzer.TypeScript

/-! The complaints of the compiler. -/

def place (file : String) (line column : Nat) : String :=
  file ++ "(" ++ natText line ++ "," ++ natText column ++ ")"

/-- A complaint in the form in which the compiler writes it. -/
def written (file : String) (line column : Nat) (code message : String) : String :=
  place file line column ++ ": error " ++ code ++ ": " ++ message

/-- What is kept of a message: the part before its first colon. -/
def kept (message : String) : String := Text.strip (String.ofList (message.toList.takeWhile (· ≠ ':')))

def firstWord (s : String) : String := String.ofList ((Chars.splitOn ' ' s.toList).headD [])

theorem notMem_natText {c : Char} (h : c.isDigit = false) (n : Nat) : c ∉ (natText n).toList := by
  rw [natText, String.toList_ofList]
  intro hc
  rw [allDigits_toDigits n c hc] at h
  cases h

variable {file code : String} (line column : Nat)

theorem position?_place (hopen : '(' ∉ file.toList) (hclose : ')' ∉ file.toList) :
    position? (place file line column).toList =
      if HasRoom line ∧ HasRoom column then some ((line : Int), (column : Int)) else none := by
  have hdigits (n : Nat) := @notMem_natText ')' rfl n
  generalize hinside : (natText line).toList ++ ',' :: (natText column).toList = inside
  have hplace : (place file line column).toList = file.toList ++ '(' :: inside ++ [')'] := by simp [place, ← hinside]
  have hstart : indexOf ['('] (file.toList ++ '(' :: inside ++ [')']) = some file.toList.length := by
    rw [append_assoc]
    exact indexOf_append hopen _
  have hstop : indexOf [')'] (file.toList ++ '(' :: inside ++ [')']) = some (file.toList ++ '(' :: inside).length :=
    indexOf_append (by simp [hclose, ← hinside, hdigits]) []
  have hbetween : between (file.toList ++ '(' :: inside ++ [')']) (file.toList.length + 1)
      (some (file.toList ++ '(' :: inside).length) = inside := by
    rw [between, Option.getD_some, take_left]
    simp
  have hparts : Chars.splitOn ',' inside = [(natText line).toList, (natText column).toList] := by
    rw [← hinside, splitOn_append, splitOn_of_notMem (notMem_natText rfl line),
      splitOn_of_notMem (notMem_natText rfl column)]
    rfl
  simp only [hplace, position?, hstart, hstop, hbetween, hparts, headD_cons, drop_succ_cons, drop_zero,
    String.ofList_toList, intOfText?_natText]
  by_cases hline : HasRoom line <;> by_cases hcolumn : HasRoom column <;> simp [hline, hcolumn]

theorem splitFirst_written (message : String) (hfile : ':' ∉ file.toList) (hcode : ':' ∉ code.toList) :
    ∃ rest, splitFirst ':' 3 (written file line column code message).toList =
      (place file line column).toList :: (" error ".toList ++ code.toList) ::
        (' ' :: message.toList).takeWhile (· ≠ ':') :: rest := by
  have hdigits (n : Nat) := @notMem_natText ':' rfl n
  obtain ⟨rest, hrest⟩ := splitFirst_succ ':' 0 (' ' :: message.toList)
  have hform : (written file line column code message).toList = (place file line column).toList ++
      ':' :: ((" error ".toList ++ code.toList) ++ ':' :: ' ' :: message.toList) := by simp [written]
  refine ⟨rest, ?_⟩
  rw [hform, Chars.splitFirst_append (by simp [place, hfile, hdigits]),
    Chars.splitFirst_append (by simp [hcode]), hrest]

/-- Of a complaint in the form of the compiler the place is read right. But its code is lost, the
first word of the message being taken for it, and the message ends at its first colon. A line or
column of too many digits is no number. -/
theorem readComplaint?_written (file : String) (line column : Nat) (code message : String)
    (hfile : ∀ c ∈ file.toList, c ≠ ':' ∧ c ≠ '(' ∧ c ≠ ')') (hcode : ':' ∉ code.toList) :
    readComplaint? (written file line column code message) =
      if HasRoom line ∧ HasRoom column then
        some ⟨firstWord (kept message), kept message, line, column, true⟩
      else none := by
  obtain ⟨rest, hsplit⟩ := splitFirst_written line column message (fun hc => (hfile _ hc).1 rfl) hcode
  have hplace := position?_place line column (fun hc => (hfile '(' hc).2.1 rfl) fun hc => (hfile ')' hc).2.2 rfl
  have herror : Chars.occurs "error".toList (" error ".toList ++ code.toList) = true :=
    Chars.occurs_iff.mpr ⟨[' '], ' ' :: code.toList, by simp⟩
  have hmessage : Chars.strip ((' ' :: message.toList).takeWhile (· ≠ ':')) = (kept message).toList := by
    rw [takeWhile_cons_of_pos (by decide), Chars.strip_cons_blank rfl, kept, Text.strip, String.toList_ofList,
      String.toList_ofList]
  rw [readComplaint?, hsplit]
  simp only [hplace, hmessage, herror, String.ofList_toList, firstWord]
  split_ifs <;> rfl

theorem readComplaint?_written_colon :
    readComplaint? (written "f.ts" 1 2 "TS2551" "No: a") = some ⟨"No", "No", 1, 2, true⟩ := by
  rw [readComplaint?_written "f.ts" 1 2 "TS2551" "No: a" (by simp) (by simp), if_pos (by decide)]
  rfl

/-- The code of a complaint is lost: the first word of its message stands in its place. -/
theorem code_lost : written "f.ts" 1 2 "TS2551" "msg" = "f.ts(1,2): error TS2551: msg" ∧
      readComplaint? "f.ts(1,2): error TS2551: msg" = some ⟨"msg", "msg", 1, 2, true⟩ :=
        ⟨by decide, by rfl⟩

/-! The messages of the linter. Each must name a rule, or else nothing is told at all. -/

/-- What the compiler or the linter notes. -/
structure Note where
  rule : String
  message : Value
  line : Value
  column : Value
  isError : Bool

namespace Note

def toValue (origin : Value) (n : Note) : Value :=
  .object [
    ("type", origin), ("code", n.rule), ("message", n.message), ("line_number", n.line), ("column", n.column),
    ("severity", (if n.isError then "error" else "warning"))]

def isAlarm (n : Note) : Bool := isSecurityRule (lowerText n.rule)

/-- A note as it is told among the issues of security. -/
def alarm (filename : Value) (n : Note) : Value :=
  .object [
    ("severity", (if n.isError then "high" else "medium")), ("type", "security_typescript"), ("code", n.rule),
    ("message", n.message), ("line_number", n.line), ("column", n.column), ("file", filename)]

end Note

def Complaint.note (c : Complaint) : Note := ⟨c.code, c.message, .int c.line, .int c.column, c.isError⟩

/-- The rule that a message names. A message without the field names the empty rule. -/
def ruleOf? (m : Value) : Option String :=
  match m.fetch "ruleId" "" with
  | .ok (.text rule) => some rule
  | _ => none

def noteOf (m : Value) : Note :=
  let field (name : String) (default : Value) := (m.fetch name default).toOption.getD default
  { rule := (ruleOf? m).getD "", message := field "message" "", line := field "line" (.int 0)
    column := field "column" (.int 0), isError := (field "severity" .null).equals (.int 2) }

variable (filename : Value)

theorem add_note (s : Sorted) (origin : Value) (n : Note) : ∃ s', s.add (.ok filename) (n.toValue origin) = .ok s' ∧
    s'.security = s.security ++ if n.isAlarm then [n.alarm filename] else [] := by
  have hrule : ruleName (n.toValue origin) = .ok (lowerText n.rule) := rfl
  have htold : securityIssue filename (n.toValue origin) = .ok (n.alarm filename) := by
    cases h : n.isError <;> simp [securityIssue, Note.toValue, fetch, lookup_cons, equals, Note.alarm, h]
  rw [Sorted.add, hrule]
  simp only [ok_bind, htold]
  cases halarm : n.isAlarm with
  | true => exact ⟨_, if_pos halarm, rfl⟩
  | false =>
    have hsame : (s.addQuality (lowerText n.rule) (n.toValue origin)).security = s.security := by
      unfold Sorted.addQuality
      split_ifs <;> rfl
    exact ⟨_, if_neg (Bool.eq_false_iff.mp halarm), by simp [hsame]⟩

theorem foldlM_notes (origin : Value) (notes : List Note) (s : Sorted) :
    ∃ s', (notes.map (·.toValue origin)).foldlM (Sorted.add (.ok filename)) s = .ok s' ∧
      s'.security = s.security ++ (notes.filter (·.isAlarm)).map (·.alarm filename) := by
  induction notes generalizing s with
  | nil => exact ⟨s, rfl, (append_nil _).symm⟩
  | cons n notes ih =>
    obtain ⟨s₁, hs₁, hsecurity₁⟩ := add_note filename s origin n
    obtain ⟨s₂, hs₂, hsecurity₂⟩ := ih s₁
    refine ⟨s₂, by rw [map_cons, foldlM_cons, hs₁, ok_bind, hs₂], ?_⟩
    rw [hsecurity₂, hsecurity₁, filter_cons]
    split_ifs <;> simp

theorem lintIssue_of_rule {m : Value} (h : (ruleOf? m).isSome) : lintIssue m = .ok ((noteOf m).toValue "eslint") := by
  obtain ⟨rule, h⟩ := Option.isSome_iff_exists.mp h
  have hrule : m.fetch "ruleId" "" = .ok (.text rule) := by
    unfold ruleOf? at h
    split at h <;> simp_all
  cases m with
  | object entries | mapping pairs =>
    rw [lintIssue, hrule, noteOf, h]
    rfl
  | _ => cases hrule

theorem ruleName_of_foldlM {issues : List Value} {s s' : Sorted}
    (h : issues.foldlM (Sorted.add (.ok filename)) s = .ok s') :
    ∀ issue ∈ issues, ∃ rule, ruleName issue = .ok rule := by
  induction issues generalizing s with
  | nil => simp
  | cons issue issues ih =>
    obtain ⟨s₁, hs₁, hrest⟩ := bind_eq_ok_iff.mp h
    obtain ⟨rule, hrule, -⟩ := bind_eq_ok_iff.mp hs₁
    exact forall_mem_cons.mpr ⟨⟨rule, hrule⟩, ih hrest⟩

theorem rule_of_lintIssue {m issue : Value} {rule : String} (h : lintIssue m = .ok issue)
    (hrule : ruleName issue = .ok rule) : (ruleOf? m).isSome := by
  simp only [lintIssue, bind_eq_ok_iff] at h
  obtain ⟨code, hcode, _, -, _, -, _, -, _, -, h⟩ := h
  cases h
  cases code with
  | text s => simp [ruleOf?, hcode]
  | _ => cases hrule

theorem isSecurityRule_of_startsWith {rule : String} (h : Text.startsWith "security/" rule) :
    isSecurityRule (lowerText rule) := by
  obtain ⟨rest, hrest⟩ := startsWith_iff.mp h
  have hlower : (lowerText rule).toList = "security/".toList ++ lowerChars "security/".toList.reverse rest := by
    rw [lowerText, String.toList_ofList, ← hrest]
    rfl
  have hmark : Text.occurs "security/" (lowerText rule) := by
    rw [Text.occurs, occurs_iff, hlower]
    exact (prefix_append _ _).isInfix
  exact any_eq_true.mpr ⟨"security/", by simp [securityMarks], hmark⟩

/-- The compiler prints a report, and the linter one on a file. -/
structure Reports (tools : Toolbox) (report : String) (messages : List Value) : Prop where
  compiler : ∃ reply, tools "tsc" = .done reply ∧ reply.complaint = .text report
  linter : ∃ reply output file, tools "eslint" = .done reply ∧ reply.output = .text output ∧
    Json.document? output = .ok (some (.list [file])) ∧ file.fetch "messages" (.list []) = .ok (.list messages)

variable {tools : Toolbox} {report : String} {messages : List Value}

theorem inspect_eq (h : Reports tools report messages) :
    inspect tools filename = messages.mapM lintIssue >>= fun issues =>
    sortIssues (.ok filename) ((readComplaints report).map (·.toValue)) (.ok issues) := by
  obtain ⟨compiler, hcompiler, hreport⟩ := h.compiler
  obtain ⟨linter, output, file, hlinter, houtput, hdocument, hmessages⟩ := h.linter
  have hlint : lint tools = messages.mapM lintIssue := by
    have hsome : (output != "") := by
      rw [bne_iff_ne]
      rintro rfl
      cases hdocument
    have hread : linter.document? = .ok (some (.list [file])) := by rw [Reply.document?, houtput]; exact hdocument
    rw [lint, Toolbox.run, hlinter]
    simp only [ok_bind, houtput, truthy, hsome, hread, lintIssues, hmessages]
    rfl
  rw [inspect, Toolbox.run, hcompiler, hlint]
  by_cases hsilent : report = ""
  · simp only [ok_bind, hreport, hsilent]
    rfl
  · simp only [ok_bind, hreport, truthy, bne_iff_ne, ne_eq, hsilent]
    rfl

/-- The messages of the linter about security are told, each once and in order, after the complaints
of the compiler about security, if and only if every message names a rule. -/
theorem alarms_told_iff (tools : Toolbox) (filename : Value) (report : String)
    (messages : List Value) (h : Reports tools report messages) :
    ((∃ v, inspect tools filename = .ok v ∧ v.member "security_issues" = .ok (.list
      ((((readComplaints report).map (·.note) ++ messages.map noteOf).filter (·.isAlarm)).map
        (·.alarm filename)))) ↔
        ∀ m ∈ messages, (ruleOf? m).isSome) ∧
    ∀ m rule, ruleOf? m = some rule → Text.startsWith "security/" rule → (noteOf m).isAlarm := by
  rw [inspect_eq filename h]
  refine ⟨⟨?_, ?_⟩, ?_⟩
  · rintro ⟨v, hv, -⟩ m hm
    obtain ⟨issues, hissues, hv⟩ := bind_eq_ok_iff.mp hv
    obtain ⟨s, -, hv⟩ := bind_eq_ok_iff.mp hv
    obtain ⟨s', hs', -⟩ := bind_eq_ok_iff.mp (ok_bind issues _ ▸ hv)
    have hmem : lintIssue m ∈ issues.map Except.ok := mapM_eq_ok_iff.mp hissues ▸ mem_map_of_mem hm
    obtain ⟨issue, hissue, hlint⟩ := mem_map.mp hmem
    obtain ⟨rule, hrule⟩ := ruleName_of_foldlM filename hs' issue hissue
    exact rule_of_lintIssue hlint.symm hrule
  · intro hrules
    have hcompiler : (readComplaints report).map (·.toValue) =
        ((readComplaints report).map (·.note)).map (·.toValue "typescript") := by rw [map_map]; rfl
    have hlint : messages.mapM lintIssue = .ok ((messages.map noteOf).map (·.toValue "eslint")) := by
      rw [mapM_eq_ok_iff, map_map, map_map]
      exact map_congr_left fun m hm => lintIssue_of_rule (hrules m hm)
    obtain ⟨s, hs, hsecurity⟩ := foldlM_notes filename "typescript" ((readComplaints report).map (·.note)) {}
    obtain ⟨s', hs', hsecurity'⟩ := foldlM_notes filename "eslint" (messages.map noteOf) s
    refine ⟨s'.toValue, by simp only [hlint, hcompiler, ok_bind, sortIssues, hs, hs', pure_eq_ok], ?_⟩
    change Except.ok (Value.list s'.security) = _
    rw [hsecurity', hsecurity, filter_append, map_append]
    rfl
  · intro m rule hrule hstart
    rw [Note.isAlarm, noteOf, hrule]
    exact isSecurityRule_of_startsWith hstart

/-- A linter that prints a report, and a compiler that has nothing to say. -/
def linting (messages : List Value) : Toolbox := fun command =>
  .done
    { output :=
        if command = "eslint" then Json.write {} (.list [.object [("messages", .list messages)]])
        else "" }

theorem reports_linting (h : isDocument maxDepth (.list [.object [("messages", .list messages)]])) :
    Reports (linting messages) "" messages :=
  ⟨⟨_, rfl, rfl⟩, _, _, _, rfl, rfl, by rw [Json.document?, parse_write _ rfl h], rfl⟩

def threeMessages : List Value := [
  .object [("ruleId", "security/x"), ("line", .int 3)], .object [("ruleId", "no-var")],
  .object [("ruleId", "security/y"), ("line", .int 1)]]

theorem alarms_told_iff_line :
    ∃ v, inspect (linting threeMessages) "a.ts" = .ok v ∧ v.member "security_issues" = .ok (.list [
      Note.alarm "a.ts" ⟨"security/x", "", .int 3, .int 0, false⟩,
      Note.alarm "a.ts" ⟨"security/y", "", .int 1, .int 0, false⟩]) := by
  have hrules : ∀ m ∈ threeMessages, (ruleOf? m).isSome := by
    simp [threeMessages, ruleOf?, Value.fetch]
  have h := (alarms_told_iff _ "a.ts" "" threeMessages (reports_linting (by decide))).1.mpr hrules
  have hnotes : threeMessages.map noteOf = [
      ⟨"security/x", "", .int 3, .int 0, false⟩, ⟨"no-var", "", .int 0, .int 0, false⟩,
      ⟨"security/y", "", .int 1, .int 0, false⟩] := by
    simp [threeMessages, noteOf, ruleOf?, Value.fetch, lookup_cons, Value.equals, Except.toOption]
  rw [hnotes] at h
  exact h

/-- One message without a rule hides the alarm that another one gives. -/
theorem unnamed_rule_hides_alarm :
    inspect (linting [.object [("ruleId", .null)], .object [("ruleId", "security/x")]]) "a.ts" =
      .error (.noAttribute "'NoneType' object has no attribute 'lower'") := by
  rw [inspect_eq _ (reports_linting (by decide))]
  rfl

end Analyzer.TypeScript

end CodeAudit

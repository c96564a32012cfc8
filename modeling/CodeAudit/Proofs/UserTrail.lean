import CodeAudit.Journal
import CodeAudit.Proofs.JsonLine
import CodeAudit.Proofs.TimeText

/-! The trail of what users did gives back what was written to it, so that asking for a user yields
the user's documents in their order. -/

namespace CodeAudit.Journal

open List Json Time Value Entries

structure UserId where
  text : String
  named : text ≠ ""
deriving DecidableEq

inductive TrailCall where
  | event (kind : String) (user : Option UserId) (success : Bool) (details : Entries)
  | login (user : Option UserId) (email : Option String) (success : Bool) (address agent : Option String)
  | passwordChange (user : UserId) (success : Bool) (address : Option String)
  | passwordReset (user : Option UserId) (email : Option String) (success : Bool) (address : Option String)
  | secondFactor (user : UserId) (success : Bool) (address : Option String)
  | permissionCheck (user : UserId) (permission : String) (resource : Option String) (success : Bool)
  | roleChange (user : UserId) (role action : String) (admin : UserId)
  | security (kind severity message : String) (user : Option UserId) (details : Entries)

def userValue (user : Option UserId) : Value := .ofText? (user.map UserId.text)

namespace TrailCall

def entry (time : DateTime) : TrailCall → Outcome TrailEntry
  | event kind user success details => .ok {
      time, kind := .text kind, user := userValue user, success := .bool success, details := .object details }
  | login user email success address agent =>
    .ok (triedLogin time (userValue user) (.ofText? email) (.bool success) (.ofText? address) (.ofText? agent))
  | passwordChange user success address =>
    .ok (changedPassword time (.text user.text) (.bool success) (.ofText? address))
  | passwordReset user email success address =>
    .ok (resetPassword time (userValue user) (.ofText? email) (.bool success) (.ofText? address))
  | secondFactor user success address =>
    .ok (triedSecondFactor time (.text user.text) (.bool success) (.ofText? address))
  | permissionCheck user permission resource success =>
    .ok (checkedPermission time (.text user.text) (.text permission) (.ofText? resource) (.bool success))
  | roleChange user role action admin =>
    .ok (changedRole time (.text user.text) (.text role) (.text action) (.text admin.text))
  | security kind severity message user details =>
    securityEntry time (.text kind) (.text severity) (.text message) (userValue user) (.object details)

def kind : TrailCall → String
  | event kind _ _ _ => kind
  | login .. => "auth_attempt"
  | passwordChange .. => "password_change"
  | passwordReset .. => "password_reset"
  | secondFactor .. => "mfa_attempt"
  | permissionCheck .. => "permission_check"
  | roleChange .. => "role_change"
  | security kind _ _ _ _ => "security_" ++ kind

def user : TrailCall → Option UserId
  | event _ user _ _ | login user _ _ _ _ | passwordReset user _ _ _ | security _ _ _ user _ => user
  | passwordChange user _ _ | secondFactor user _ _ | permissionCheck user _ _ _ | roleChange user _ _ _ => some user

def success : TrailCall → Bool
  | event _ _ success _ | login _ _ success _ _ | passwordChange _ success _ | passwordReset _ _ success _
  | secondFactor _ success _ | permissionCheck _ _ _ success => success
  | roleChange .. | security .. => true

def details : TrailCall → Entries
  | event _ _ _ details => details
  | login _ email _ address agent =>
    [("email", .ofText? email), ("ip_address", .ofText? address), ("user_agent", .ofText? agent)]
  | passwordChange _ _ address | secondFactor _ _ address => [("ip_address", .ofText? address)]
  | passwordReset _ email _ address => [("email", .ofText? email), ("ip_address", .ofText? address)]
  | permissionCheck _ permission resource _ => [("permission", .text permission), ("resource", .ofText? resource)]
  | roleChange _ role action admin => [("role", .text role), ("action", .text action), ("admin_id", .text admin.text)]
  | security _ severity message _ details =>
    Entries.merge [("severity", .text severity), ("message", .text message)] details

def IsSerialisable : TrailCall → Prop
  | event _ _ _ details | security _ _ _ _ details => isDocument (maxDepth - 1) (.object details) = true
  | _ => True

instance : DecidablePred IsSerialisable
  | event _ _ _ details | security _ _ _ _ details =>
    inferInstanceAs (Decidable (isDocument (maxDepth - 1) (.object details) = true))
  | login .. | passwordChange .. | passwordReset .. | secondFactor .. | permissionCheck .. | roleChange .. =>
    .isTrue trivial

end TrailCall

structure Logged where
  time : DateTime
  call : TrailCall

variable {l : Logged} {vs : List Value}

namespace Logged

def document (l : Logged) : Value := .object [
  ("timestamp", .text l.time.text), ("event_type", .text l.call.kind), ("user_id", userValue l.call.user),
  ("success", .bool l.call.success), ("details", .object l.call.details)]

def IsFor (user : UserId) (kind : Option String) (first last : Option DateTime) (l : Logged) : Prop :=
  l.call.user = some user ∧ (∀ k ∈ kind, l.call.kind = k) ∧ (∀ t ∈ first, t.toMicros ≤ l.time.toMicros) ∧
    ∀ t ∈ last, l.time.toMicros ≤ t.toMicros

instance (user : UserId) (kind : Option String) (first last : Option DateTime) :
    DecidablePred (IsFor user kind first last) := fun l =>
  inferInstanceAs (Decidable (l.call.user = some user ∧ (∀ k ∈ kind, l.call.kind = k) ∧
    (∀ t ∈ first, t.toMicros ≤ l.time.toMicros) ∧ ∀ t ∈ last, l.time.toMicros ≤ t.toMicros))

structure Writable (l : Logged) : Prop where
  time : l.time.OnCalendar
  details : l.call.IsSerialisable

instance (l : Logged) : Decidable l.Writable :=
  decidable_of_iff ((-719162 ≤ l.time.day ∧ l.time.day ≤ 2932896 ∧ l.time.micros < dayMicros ∧ l.time.offset = none) ∧
    l.call.IsSerialisable)
    ⟨fun h => ⟨⟨h.1.1, h.1.2.1, h.1.2.2.1, h.1.2.2.2⟩, h.2⟩,
      fun h => ⟨⟨h.time.first, h.time.last, h.time.micros, h.time.offset⟩, h.details⟩⟩

theorem userValue_kept (user : Option UserId) :
    (if (userValue user).truthy then text (userValue user).display else .null) = userValue user := by
  cases user with
  | none => rfl
  | some u => simp [userValue, ofText?, truthy, display, u.named]

theorem entry_document (l : Logged) : ∃ e, l.call.entry l.time = .ok e ∧ e.toValue = l.document := by
  have hentry : ∃ e, l.call.entry l.time = .ok e ∧ e = ⟨l.time, .text l.call.kind, userValue l.call.user,
      .bool l.call.success, .object l.call.details⟩ := by
    obtain ⟨time, call⟩ := l
    cases call with
    | security kind severity message user details => cases details <;> exact ⟨_, rfl, rfl⟩
    | _ => exact ⟨_, rfl, rfl⟩
  obtain ⟨e, he, rfl⟩ := hentry
  exact ⟨_, he, by rw [TrailEntry.toValue, userValue_kept, object_kept, document]⟩

theorem isDocument_ofText? (levels : Nat) (s : Option String) : isDocument levels (.ofText? s) := by
  cases s <;> simp [ofText?, isDocument]

theorem isDocument_details {call : TrailCall} (h : call.IsSerialisable) :
    isDocument (maxDepth - 1) (.object call.details) := by
  rw [isDocument_object]
  cases call with
  | event kind user success details => exact isDocument_object.mp h
  | security kind severity message user details =>
    obtain ⟨-, -, hdetails⟩ := isDocument_object.mp h
    refine ⟨by decide, Distinct.merge (by simp [Distinct]) details, fun e he => ?_⟩
    rcases mem_merge he with he | he
    · simp only [mem_cons, not_mem_nil, or_false] at he
      rcases he with rfl | rfl <;> simp [isDocument]
    · exact hdetails e he
  | _ => simp [TrailCall.details, Distinct, isDocument, isDocument_ofText?, maxDepth]

theorem Writable.isDocument (h : l.Writable) : isDocument maxDepth l.document := by
  have hdetails := isDocument_details h.details
  have huser := isDocument_ofText? (maxDepth - 1) (l.call.user.map UserId.text)
  rw [document, isDocument_object]
  refine ⟨by decide, by simp [Distinct], ?_⟩
  simp only [forall_mem_cons, userValue]
  exact ⟨by simp [Json.isDocument], by simp [Json.isDocument], huser, by simp [Json.isDocument], hdetails, by simp⟩

end Logged

namespace Trail

def lineOf (v : Value) : String := Json.write {} v ++ "\n"

theorem inline_write {v : Value} (h : isDocument maxDepth v) : Inline (Json.write {} v).toList :=
  inline_render {} rfl rfl h 0

theorem splitOn_lines (h : ∀ v ∈ vs, isDocument maxDepth v) :
    Chars.splitOn '\n' (String.join (vs.map lineOf)).toList = vs.map (fun v => (Json.write {} v).toList) ++ [[]] := by
  induction vs with
  | nil => rfl
  | cons v vs ih =>
    rw [forall_mem_cons] at h
    have hline : '\n' ∉ (Json.write {} v).toList := fun hc => (inline_write h.1 _ hc).1 rfl
    have htext : (String.join ((v :: vs).map lineOf)).toList =
        (Json.write {} v).toList ++ '\n' :: (String.join (vs.map lineOf)).toList := by
      simp [lineOf]
    rw [htext, Chars.splitOn_append, Chars.splitOn_of_notMem hline, ih h.2]
    rfl

theorem linesOf_join (h : ∀ v ∈ vs, isDocument maxDepth v) :
    linesOf (String.join (vs.map lineOf)) = vs.map (Json.write {}) := by
  have hreturn : '\r' ∉ (String.join (vs.map lineOf)).toList := by
    rw [String.toList_join]
    simp only [flatMap_map, mem_flatMap, not_exists, not_and]
    intro v hv hc
    rw [lineOf, String.toList_append, mem_append] at hc
    rcases hc with hc | hc
    · exact (inline_write (h v hv) _ hc).2 rfl
    · revert hc
      decide
  unfold linesOf Text.splitOn Text.unifyNewlines
  rw [Chars.unifyNewlines_of_notMem hreturn, String.toList_ofList, splitOn_lines h]
  simp

def keepLine (wanted : Value → Outcome Bool) (line : String) : Outcome (Option Value) := do
  let entry ← Json.parse line
  return if ← wanted entry then some entry else none

section Reading

variable {α : Type} {t : Trail} {wanted : Value → Outcome Bool} (docOf : α → Value) {ls : List α} {keep : α → Bool}

theorem keepLine_write {v : Value} (h : isDocument maxDepth v) :
    keepLine wanted (Json.write {} v) = do return if ← wanted v then some v else none := by
  rw [keepLine, parse_write {} rfl h]
  rfl

theorem select_some (text : String) :
    select (some text) wanted = ((linesOf text).filterMapM (keepLine wanted)).toOption.getD [] := by
  unfold select keepLine
  simp only [pure_bind]

variable (ht : t.getD "" = String.join ((ls.map docOf).map lineOf))
  (hdocs : ∀ l ∈ ls, isDocument maxDepth (docOf l))

include ht hdocs

theorem select_eq :
    t.select wanted = (((ls.map docOf).map (Json.write {})).filterMapM (keepLine wanted)).toOption.getD [] := by
  have hlines : linesOf (t.getD "") = (ls.map docOf).map (Json.write {}) := by
    rw [ht]
    refine linesOf_join fun v hv => ?_
    obtain ⟨l, hl, rfl⟩ := mem_map.mp hv
    exact hdocs l hl
  have hnone : t.select wanted = Trail.select (some (t.getD "")) wanted := by
    cases t <;> rfl
  rw [hnone, select_some, hlines]

omit ht in
theorem filterMapM_keepLine (hkeep : ∀ l ∈ ls, wanted (docOf l) = .ok (keep l)) :
    ((ls.map docOf).map (Json.write {})).filterMapM (keepLine wanted) = .ok ((ls.filter keep).map docOf) := by
  induction ls with
  | nil => rfl
  | cons l ls ih =>
    rw [forall_mem_cons] at hdocs hkeep
    rw [map_cons, map_cons, filterMapM_cons, ih hdocs.2 hkeep.2, keepLine_write hdocs.1, hkeep.1]
    cases hl : keep l <;> simp [hl]

omit ht in
theorem filterMapM_keepLine_fault (hfault : ∃ l ∈ ls, ∃ f, wanted (docOf l) = .error f) :
    ∃ f, ((ls.map docOf).map (Json.write {})).filterMapM (keepLine wanted) = .error f := by
  induction ls with
  | nil => simp at hfault
  | cons l ls ih =>
    rw [forall_mem_cons] at hdocs
    rw [map_cons, map_cons, filterMapM_cons, keepLine_write hdocs.1]
    cases hl : wanted (docOf l) with
    | error f => exact ⟨f, rfl⟩
    | ok kept =>
      rw [exists_mem_cons_iff, hl] at hfault
      obtain ⟨f, hf⟩ := ih hdocs.2 (hfault.resolve_left (by simp))
      rw [hf]
      cases kept <;> exact ⟨f, rfl⟩

theorem select_lines (hkeep : ∀ l ∈ ls, wanted (docOf l) = .ok (keep l)) :
    t.select wanted = (ls.filter keep).map docOf := by
  rw [select_eq docOf ht hdocs, filterMapM_keepLine docOf hdocs hkeep]
  rfl

theorem select_of_fault (hfault : ∃ l ∈ ls, ∃ f, wanted (docOf l) = .error f) : t.select wanted = [] := by
  obtain ⟨f, hf⟩ := filterMapM_keepLine_fault docOf hdocs hfault
  rw [select_eq docOf ht hdocs, hf]
  rfl

end Reading

/-! Asking for a user. -/

theorem isBefore_naive {a b : DateTime} (ha : a.offset = none) (hb : b.offset = none) :
    isBefore a b = .ok (decide (a.toMicros < b.toMicros)) := by
  simp [isBefore, ha, hb]

variable {first last : Option DateTime}

theorem isWithin_document (h : l.time.OnCalendar)
    (hfirst : ∀ t ∈ first, t.offset = none) (hlast : ∀ t ∈ last, t.offset = none) :
    isWithin l.document first last = .ok (decide ((∀ t ∈ first, t.toMicros ≤ l.time.toMicros) ∧
      ∀ t ∈ last, l.time.toMicros ≤ t.toMicros)) := by
  have htime : l.document.member "timestamp" = .ok (.text l.time.text) := rfl
  have hnaive := h.offset
  unfold isWithin
  rw [htime]
  simp only [ok_bind, DateTime.parse_text h]
  cases first with
  | none =>
    cases last with
    | none => simp
    | some b =>
      by_cases hend : b.toMicros < l.time.toMicros <;>
        simp [isBefore_naive (hlast b rfl) hnaive, hend, not_lt.mp]
  | some a =>
    by_cases hbegin : l.time.toMicros < a.toMicros
    · simp [isBefore_naive hnaive (hfirst a rfl), hbegin]
    · cases last with
      | none => simp [isBefore_naive hnaive (hfirst a rfl), not_lt.mp hbegin]
      | some b =>
        by_cases hend : b.toMicros < l.time.toMicros <;>
          simp [isBefore_naive hnaive (hfirst a rfl), isBefore_naive (hlast b rfl) hnaive, hbegin, hend, not_lt.mp]

theorem userValue_equals (named : Option UserId) (user : UserId) :
    (userValue named).equals (.text user.text) = decide (named = some user) := by
  cases named with
  | none => simp [userValue, ofText?, equals]
  | some u =>
    have hname : u = user ↔ u.text = user.text := by
      cases u
      cases user
      simp
    simp only [userValue, Option.map_some, ofText?, equals, Option.some.injEq, hname]
    rfl

theorem isOfUser_document (h : l.time.OnCalendar) (user : UserId) (kind : Option String)
    (hfirst : ∀ t ∈ first, t.offset = none) (hlast : ∀ t ∈ last, t.offset = none) :
    isOfUser (.text user.text) (.ofText? kind) first last l.document =
      .ok (decide (l.IsFor user (kind.filter (· ≠ "")) first last)) := by
  have huser : l.document.member "user_id" = .ok (userValue l.call.user) := rfl
  have hkind : l.document.member "event_type" = .ok (.text l.call.kind) := rfl
  unfold isOfUser
  rw [huser, hkind, isWithin_document h hfirst hlast]
  simp only [ok_bind, display, userValue_equals]
  by_cases hu : l.call.user = some user
  · cases kind with
    | none => simp [hu, Logged.IsFor, ofText?, truthy]
    | some k =>
      by_cases hempty : k = ""
      · simp [hu, hempty, Logged.IsFor, ofText?, truthy]
      · by_cases hk : l.call.kind = k <;>
          simp [hu, hempty, hk, Logged.IsFor, ofText?, truthy, equals]
  · simp [hu, Logged.IsFor]

theorem isOfUser_of_offset (h : l.time.OnCalendar) {user : UserId} (huser : l.call.user = some user)
    {first : DateTime} (hfirst : first.offset ≠ none) (last : Option DateTime) :
    ∃ f, isOfUser (.text user.text) .null (some first) last l.document = .error f := by
  have hmember : l.document.member "user_id" = .ok (userValue l.call.user) := rfl
  have htime : l.document.member "timestamp" = .ok (.text l.time.text) := rfl
  have hbefore : ∃ f, isBefore l.time first = .error f := by
    obtain ⟨distance, hdistance⟩ := Option.ne_none_iff_exists'.mp hfirst
    rw [isBefore, h.offset, hdistance]
    exact ⟨_, rfl⟩
  obtain ⟨f, hf⟩ := hbefore
  refine ⟨f, ?_⟩
  unfold isOfUser isWithin
  rw [hmember, htime]
  simp only [ok_bind, display, userValue_equals, huser, DateTime.parse_text h, hf]
  rfl

def record (t : Trail) (l : Logged) : Outcome Trail := do return t.write (← l.call.entry l.time)

def recordAll (t : Trail) (ls : List Logged) : Outcome Trail := ls.foldlM record t

theorem record_eq (t : Trail) (l : Logged) : t.record l = .ok (some (t.getD "" ++ lineOf l.document)) := by
  obtain ⟨e, he, hdoc⟩ := l.entry_document
  rw [record, he, ← hdoc]
  rfl

theorem recordAll_eq (t : Trail) (ls : List Logged) : ∃ t', t.recordAll ls = .ok t' ∧
    t'.getD "" = t.getD "" ++ String.join ((ls.map Logged.document).map lineOf) := by
  induction ls generalizing t with
  | nil => exact ⟨t, rfl, by simp⟩
  | cons l ls ih =>
    obtain ⟨t', ht', htext⟩ := ih (some (t.getD "" ++ lineOf l.document))
    refine ⟨t', ?_, ?_⟩
    · rw [recordAll, foldlM_cons, record_eq]
      exact ht'
    · rw [htext]
      simp [String.append_assoc]

/-- Asking for a user after any calls on an empty trail yields the documents of the calls about this
user that are of the kind and within the bounds asked for, in the order of the calls. -/
theorem select_isOfUser_recordAll {start : Trail} (hstart : start.getD "" = "") {ls : List Logged}
    (hls : ∀ l ∈ ls, l.Writable) (user : UserId) {kind : Option String} (hkind : kind ≠ some "")
    {first last : Option DateTime} (hfirst : ∀ t ∈ first, t.offset = none)
    (hlast : ∀ t ∈ last, t.offset = none) :
    ∃ t, start.recordAll ls = .ok t ∧
      t.select (isOfUser (.text user.text) (.ofText? kind) first last) =
        (ls.filter fun l => l.IsFor user kind first last).map Logged.document := by
  obtain ⟨t, ht, htext⟩ := recordAll_eq start ls
  have hkept : kind.filter (· ≠ "") = kind := by
    cases kind with
    | none => rfl
    | some k => simpa using hkind
  rw [hstart, String.empty_append] at htext
  refine ⟨t, ht, select_lines Logged.document htext (fun l hl => (hls l hl).isDocument) fun l hl => ?_⟩
  rw [isOfUser_document (hls l hl).time user kind hfirst hlast, hkept]

def sampleCalls : List Logged := [
  ⟨⟨19723, 0, none⟩, .event "note" (some ⟨"ada", by decide⟩) true [("text", .text "a\nb\r\"c")]⟩,
  ⟨⟨19723, 1500000, none⟩, .login none (some "ada@example.com") false none none⟩,
  ⟨⟨19724, 7, none⟩, .passwordChange ⟨"ada", by decide⟩ true none⟩]

theorem sampleCalls_writable : ∀ l ∈ sampleCalls, l.Writable := by decide

theorem select_isOfUser_recordAll_sample : ∃ t, Trail.recordAll none sampleCalls = .ok t ∧
    t.select (isOfUser (.text "ada") (.text "note") (some ⟨19723, 0, none⟩) none) =
      [.object [("timestamp", .text "2024-01-01T00:00:00"), ("event_type", .text "note"),
        ("user_id", .text "ada"),
        ("success", .bool true), ("details", .object [("text", .text "a\nb\r\"c")])]] := by
  obtain ⟨t, ht, hread⟩ := @select_isOfUser_recordAll none rfl sampleCalls sampleCalls_writable ⟨"ada", by decide⟩
    (some "note") (by decide) (some ⟨19723, 0, none⟩) none (by simp) (by simp)
  have htime : DateTime.text ⟨19723, 0, none⟩ = "2024-01-01T00:00:00" := by decide
  refine ⟨t, ht, hread.trans ?_⟩
  simp [sampleCalls, Logged.IsFor, Logged.document, TrailCall.user, TrailCall.kind, TrailCall.success,
    TrailCall.details, userValue, Value.ofText?, htime]

/-- An empty type asks for all types, and a bound with an offset for no event at all. -/
theorem select_isOfUser_amiss : ∃ t, Trail.recordAll none sampleCalls = .ok t ∧
    (t.select (isOfUser (.text "ada") (.text "") none none)).length = 2 ∧
    (sampleCalls.filter fun l => l.IsFor ⟨"ada", by decide⟩ (some "") none none) = [] ∧
    t.select (isOfUser (.text "ada") .null (some ⟨19358, 0, some 0⟩) none) = [] ∧
    (sampleCalls.filter fun l =>
      l.IsFor ⟨"ada", by decide⟩ none (some ⟨19358, 0, some 0⟩) none).length = 2 := by
  have hdocs : ∀ l ∈ sampleCalls, isDocument maxDepth l.document = true :=
    fun l hl => (sampleCalls_writable l hl).isDocument
  have hkeep : ∀ l ∈ sampleCalls, isOfUser (.text "ada") (.text "") none none l.document =
      .ok (decide (l.IsFor ⟨"ada", by decide⟩ none none none)) := fun l hl =>
    isOfUser_document (sampleCalls_writable l hl).time ⟨"ada", by decide⟩ (some "") (by simp) (by simp)
  obtain ⟨t, ht, htext⟩ := recordAll_eq none sampleCalls
  rw [Option.getD_none, String.empty_append] at htext
  refine ⟨t, ht, ?_, ?_, ?_, ?_⟩
  · rw [select_lines Logged.document htext hdocs hkeep]
    simp [sampleCalls, Logged.IsFor, TrailCall.user]
  · simp [sampleCalls, Logged.IsFor, TrailCall.user, TrailCall.kind]
  · refine select_of_fault Logged.document htext hdocs ⟨_, List.mem_cons_self, ?_⟩
    exact isOfUser_of_offset (sampleCalls_writable _ List.mem_cons_self).time rfl (by simp) none
  · simp [sampleCalls, Logged.IsFor, TrailCall.user, DateTime.toMicros, DateTime.localMicros, dayMicros]

end Trail

end CodeAudit.Journal

/-! Asking the trail for events of interest to security. An entry counts that says its kind and
severity, whatever call has made it. -/

namespace CodeAudit

open Value Text

theorem Value.equals_text_iff {v : Value} {s : String} : v.equals (.text s) ↔ v = .text s := by
  cases v <;> simp [equals, number?]

namespace Journal

open Json Time

namespace TrailCall

variable (severity : String)

def IsForSecurity : TrailCall → Prop
  | security _ given _ _ _ => given = severity
  | _ => False

instance (severity : String) : DecidablePred (IsForSecurity severity)
  | security _ given _ _ _ => inferInstanceAs (Decidable (given = severity))
  | event .. | login .. | passwordChange .. | passwordReset .. | secondFactor .. | permissionCheck ..
  | roleChange .. => .isFalse id

def IsNotedAs : TrailCall → Prop
  | event kind _ _ details =>
    "security_".toList <+: kind.toList ∧ details.lookup "severity" = some (.text severity)
  | _ => False

def BringsSeverity : TrailCall → Prop
  | security _ _ _ _ details => "severity" ∈ details.map Prod.fst
  | _ => False

def passesFor (call : TrailCall) : Bool :=
  startsWith "security_" call.kind &&
    (call.details.lookup "severity").any fun v => v.equals (.text severity)

variable {severity : String}

theorem passesFor_event (kind : String) (user : Option UserId) (success : Bool) (details : Entries) :
    (event kind user success details).passesFor severity ↔
      "security_".toList <+: kind.toList ∧ details.lookup "severity" = some (.text severity) := by
  simp only [passesFor, TrailCall.details, Bool.and_eq_true, Option.any_eq_true, equals_text_iff, exists_eq_right]
  exact and_congr_left' Chars.startsWith_iff

theorem passesFor_security (kind given message : String) (user : Option UserId) {details : Entries}
    (h : "severity" ∉ details.map Prod.fst) :
    (security kind given message user details).passesFor severity ↔ given = severity := by
  have hkind : startsWith "security_" ("security_" ++ kind) := by
    rw [startsWith, Chars.startsWith_iff, String.toList_append]
    exact List.prefix_append _ _
  have hdetails : (security kind given message user details).details.lookup "severity" = some (.text given) :=
    Entries.lookup_merge_of_notMem h _
  rw [passesFor, hdetails, TrailCall.kind, hkind]
  simp [equals_text_iff]

theorem passesFor_iff {call : TrailCall} (h : ¬ call.BringsSeverity) :
    call.passesFor severity ↔ call.IsForSecurity severity ∨ call.IsNotedAs severity := by
  cases call with
  | event kind user success details => simp [passesFor_event, IsForSecurity, IsNotedAs]
  | security kind given message user details =>
    rw [passesFor_security kind given message user h]
    simp [IsForSecurity, IsNotedAs]
  | _ =>
    -- The other calls have kinds of their own, none of which begins like those of security.
    simp only [IsForSecurity, IsNotedAs, passesFor, TrailCall.kind]
    simp [startsWith, Chars.startsWith, Chars.afterPrefix]

end TrailCall

namespace Trail

theorem isOfSecurity_document {l : Logged} (h : l.time.OnCalendar) {severity : String} (hseverity : severity ≠ "") :
    isOfSecurity (.text severity) none none l.document = .ok (l.call.passesFor severity) := by
  have hkind : l.document.member "event_type" = .ok (.text l.call.kind) := rfl
  have hdetails : l.document.member "details" = .ok (.object l.call.details) := rfl
  have hwithin : isWithin l.document none none = .ok true := by
    rw [isWithin_document h (by simp) (by simp)]
    simp
  have hgiven : (text severity).truthy := by simpa [truthy] using hseverity
  unfold isOfSecurity TrailCall.passesFor
  rw [hkind, hdetails, hwithin, hgiven]
  simp only [ok_bind, textFor, holds, member]
  cases hstart : startsWith "security_" l.call.kind with
  | false => rfl
  | true =>
    cases hlookup : l.call.details.lookup "severity" with
    | none => rfl
    | some v => cases hv : v.equals (.text severity) <;> simp [hv]

/-- Asking for a severity after any calls on an empty trail yields the documents of the calls for
security of this severity and of the events that are noted like them. A call for security whose
details bring a severity is left open. -/
theorem select_isOfSecurity_recordAll {start : Trail} (hstart : start.getD "" = "")
    {ls : List Logged} (hls : ∀ l ∈ ls, l.Writable) {severity : String}
    (hseverity : severity ≠ "") :
    ∃ (t : Trail) (keep : TrailCall → Bool), start.recordAll ls = .ok t ∧
      t.select (isOfSecurity (.text severity) none none) =
        (ls.filter fun l => keep l.call).map Logged.document ∧
      ∀ call : TrailCall, ¬ call.BringsSeverity →
        (keep call = true ↔ call.IsForSecurity severity ∨ call.IsNotedAs severity) := by
  obtain ⟨t, ht, htext⟩ := recordAll_eq start ls
  rw [hstart, String.empty_append] at htext
  have hread := select_lines Logged.document htext (fun l hl => (hls l hl).isDocument)
    fun l hl => isOfSecurity_document (hls l hl).time hseverity
  exact ⟨t, TrailCall.passesFor severity, ht, hread, fun call hcall => TrailCall.passesFor_iff hcall⟩

def securityCalls : List Logged := [
  ⟨⟨19723, 0, none⟩, .security "scan" "high" "Port scan" (some ⟨"grace", by decide⟩) [("port", .int 22)]⟩,
  ⟨⟨19723, 1500000, none⟩, .event "security_note" none true [("severity", .text "high")]⟩,
  ⟨⟨19724, 7, none⟩, .security "scan" "low" "Ping" none []⟩]

theorem securityCalls_writable : ∀ l ∈ securityCalls, l.Writable := by decide

theorem select_isOfSecurity_recordAll_sample : ∃ t, Trail.recordAll none securityCalls = .ok t ∧
    t.select (isOfSecurity (.text "high") none none) =
      (securityCalls.take 2).map Logged.document := by
  obtain ⟨t, keep, ht, hread, hkeep⟩ := @select_isOfSecurity_recordAll none rfl securityCalls
    securityCalls_writable "high" (by decide)
  refine ⟨t, ht, hread.trans ?_⟩
  have hfirst := hkeep (.security "scan" "high" "Port scan" (some ⟨"grace", by decide⟩) [("port", .int 22)])
    (by simp [TrailCall.BringsSeverity])
  have hsecond := hkeep (.event "security_note" none true [("severity", .text "high")]) id
  have hthird := hkeep (.security "scan" "low" "Ping" none []) (by simp [TrailCall.BringsSeverity])
  simp [TrailCall.IsForSecurity, TrailCall.IsNotedAs] at hfirst hsecond hthird
  simp [securityCalls, hfirst, hsecond, hthird]

def turnedCalls : List Logged := [
  ⟨⟨19723, 0, none⟩, .security "scan" "high" "Port scan" none [("severity", .text "low")]⟩,
  ⟨⟨19723, 0, none⟩, .event "security_note" none true [("severity", .text "high")]⟩]

/-- A severity among the details of an event takes the place of that with which it was logged. -/
theorem select_isOfSecurity_amiss : ∃ t, Trail.recordAll none turnedCalls = .ok t ∧
    t.select (isOfSecurity (.text "high") none none) = (turnedCalls.drop 1).map Logged.document ∧
    (turnedCalls.filter fun l => l.call.IsForSecurity "high") = turnedCalls.take 1 ∧
    (turnedCalls.drop 1).map Logged.document ≠ (turnedCalls.take 1).map Logged.document := by
  have hwritable : ∀ l ∈ turnedCalls, l.Writable := by decide
  obtain ⟨t, ht, htext⟩ := recordAll_eq none turnedCalls
  rw [Option.getD_none, String.empty_append] at htext
  have hread := select_lines Logged.document htext (fun l hl => (hwritable l hl).isDocument)
    fun l hl => isOfSecurity_document (hwritable l hl).time (show "high" ≠ "" by decide)
  have hfirst : (TrailCall.security "scan" "high" "Port scan" none [("severity", .text "low")]).passesFor "high" =
      false := by
    simp [TrailCall.passesFor, TrailCall.details, Entries.merge, Entries.put, Value.equals]
  have hsecond : (TrailCall.event "security_note" none true [("severity", .text "high")]).passesFor "high" = true :=
    (TrailCall.passesFor_event ..).mpr ⟨by decide, rfl⟩
  refine ⟨t, ht, hread.trans ?_, rfl, ?_⟩
  · simp [turnedCalls, hfirst, hsecond]
  · simp [turnedCalls, Logged.document, TrailCall.kind]

end Trail

end Journal

end CodeAudit

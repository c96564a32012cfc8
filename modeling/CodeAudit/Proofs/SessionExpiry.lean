import Mathlib.Data.Rat.Floor
import CodeAudit.Proofs.SessionContent

/-! How long a session lasts, and which ones a clean-up removes. Every use puts off the end of an
entry in the store, but the deadline in its data stays as it was. -/

namespace CodeAudit.Session

open Store Request Option

section Clearing

open Option List

def Lasts (now : Rat) (record : Record) : Prop := ∃ data second text t, record = .signed data second ∧
  data.member "expires_at" = .ok (.text text) ∧ Time.parse text = .ok t ∧ t.offset = none ∧
  Time.Seconds.micros now ≤ t.localMicros

variable {now : Rat} {s : Store Rat String Record} {key : String}

theorem any_isOver_iff {record : Record} : (isOver now record).toOption.any (!·) ↔ Lasts now record := by
  cases record with
  | junk => simp [Lasts, isOver, Record.data, Except.toOption]
  | signed data second =>
    cases hm : data.member "expires_at" with
    | error f => simp [Lasts, isOver, Record.data, Except.toOption, hm]
    | ok v =>
      cases v with
      | text str =>
        cases hp : Time.parse str with
        | error f => simp [Lasts, isOver, Record.data, Except.toOption, hm, hp]
        | ok t =>
          cases ho : t.offset <;>
            simp [Lasts, isOver, Record.data, Except.toOption, hm, hp, ho]
      | _ => simp [Lasts, isOver, Record.data, Except.toOption, hm]

theorem isCleared_iff : isCleared now (s.entries.get? key) ↔
    ∃ record, s.find? now key = some record ∧ ¬Lasts now record := by
  simp only [← any_isOver_iff, find?_eq, isCleared, uncleared]
  cases live now (s.entries.get? key) with
  | none => simp
  | some e => simp

theorem live_uncleared (now : Rat) (held : Option (Stored Rat Record)) :
    live now (uncleared now held) = if isCleared now held then none else live now held := by
  have hlive : live now (uncleared now held) = uncleared now held := by
    simp only [uncleared, live, Option.filter_filter]
    congr 1
    funext e
    cases e.isOver now <;> simp
  rw [hlive, isCleared, uncleared]
  cases live now held with
  | none => rfl
  | some e => cases hkeep : (isOver now e.value).toOption.any (!·) <;> simp [hkeep]

/-- A clean-up removes the sessions in the store that do not last, answers their number, leaves all
else as it is, and has nothing more to do when it is repeated. -/
theorem cleared_exactly (h : s.isDown = false) (now : Rat) :
    ∃ removed : List String, removed.Nodup ∧
    (∀ key, key ∈ removed ↔ Text.startsWith (keyOf "") key ∧
      ∃ record, s.find? now key = some record ∧ ¬Lasts now record) ∧
    ((cleanUp now).run now s).1.1 = .ok (.nat removed.length) ∧
    (∀ key, live now (((cleanUp now).run now s).2.entries.get? key) =
      if key ∈ removed then none else live now (s.entries.get? key)) ∧
    ((cleanUp now).run now ((cleanUp now).run now s).2).1.1 = .ok (.nat 0) := by
  obtain ⟨removed, hnodup, hmem, hanswer, hget⟩ := run_cleanUp h now
  refine ⟨removed, hnodup, fun key => ?_, hanswer, fun key => ?_, ?_⟩
  · rw [hmem, isCleared_iff]
  · rw [hget]
    by_cases hkey : Text.startsWith (keyOf "") key <;> simp [hkey, hmem, live_uncleared]
  · have hup : ((cleanUp now).run now s).2.isDown = false := (Program.isDown_run ..).trans h
    obtain ⟨more, -, hmore, hagain, -⟩ := run_cleanUp hup now
    obtain rfl : more = [] := by
      refine eq_nil_iff_forall_not_mem.mpr fun key hkey => ?_
      obtain ⟨hstart, hclear⟩ := (hmore key).mp hkey
      rw [hget, if_pos hstart, isCleared_uncleared] at hclear
      cases hclear
    exact hagain

theorem cleared_exactly_junk : ∃ removed : List String, "session:a" ∈ removed ∧ "other" ∉ removed ∧
    ((cleanUp (0 : Rat)).run 0
      { entries := [("session:a", ⟨.junk, none⟩), ("other", ⟨.junk, none⟩)] }).1.1 =
      .ok (.nat removed.length) := by
  obtain ⟨removed, -, hmem, hanswer, -⟩ := cleared_exactly
    (s := { entries := [("session:a", ⟨.junk, none⟩), ("other", ⟨.junk, none⟩)] }) rfl 0
  refine ⟨removed, (hmem _).mpr ⟨by decide, .junk, rfl, ?_⟩, fun hother => ?_, hanswer⟩
  · rintro ⟨data, second, text, t, hsigned, -⟩
    cases hsigned
  · exact absurd ((hmem _).mp hother).1 (by decide)

end Clearing

open Time Seconds Int

variable {x : Rat}

theorem whole_of_nonneg (h : 0 ≤ x) : whole x = ⌊x⌋ := by
  rw [Rat.floor_def']
  exact tdiv_eq_ediv_of_nonneg (Rat.num_nonneg.mpr h)

theorem whole_of_neg (h : x < 0) : whole x = ⌈x⌉ := by
  have hn : 0 ≤ -x := by linarith
  have hw : whole (-x) = -whole x := by
    change (-x).num.tdiv (-x).den = -(x.num.tdiv x.den)
    simp
  rw [← neg_inj, ← hw, whole_of_nonneg hn, floor_neg]

theorem whole_mono {y : Rat} (h : x ≤ y) : whole x ≤ whole y := by
  rcases lt_or_ge x 0 with hx | hx <;> rcases lt_or_ge y 0 with hy | hy
  · rw [whole_of_neg hx, whole_of_neg hy]
    exact ceil_mono h
  · rw [whole_of_neg hx, whole_of_nonneg hy]
    have h1 : ⌈x⌉ ≤ 0 := ceil_le.mpr (by exact_mod_cast hx.le)
    have h2 : 0 ≤ ⌊y⌋ := floor_nonneg.mpr hy
    omega
  · linarith
  · rw [whole_of_nonneg hx, whole_of_nonneg hy]
    exact floor_mono h

theorem whole_sub_le {y : Rat} (h : y < x + (maxAge : Rat)) : whole y - whole x ≤ maxAge := by
  suffices hlt : ((whole y - whole x : Int) : Rat) < ((maxAge + 1 : Int) : Rat) by
    have := cast_lt.mp hlt
    omega
  have hage : (0 : Rat) < (maxAge : Rat) := by decide
  push_cast
  rcases lt_or_ge x 0 with hx | hx <;> rcases lt_or_ge y 0 with hy | hy
  · rw [whole_of_neg hx, whole_of_neg hy]
    linarith [ceil_lt_add_one y, le_ceil x]
  · rw [whole_of_neg hx, whole_of_nonneg hy]
    linarith [floor_le y, le_ceil x]
  · have hle : (whole y : Rat) ≤ whole x := by exact_mod_cast whole_mono (hy.le.trans hx)
    linarith
  · rw [whole_of_nonneg hx, whole_of_nonneg hy]
    linarith [floor_le y, lt_floor_add_one x]

def Kept (calls : List (Rat × Call)) (id : String) : Prop :=
  id ≠ "" ∧ (deskAfter calls).store.entries.has (keyOf id) = true

section Given

variable {calls : List (Rat × Call)} {id : String}

theorem givenAfter_of_not_kept (h : ¬ Kept calls id) (now : Rat) : givenAfter calls now id = none := by
  rw [givenAfter_eq_result, eq_none_iff_forall_ne_some]
  intro data hdata
  obtain ⟨hblank, e, hlive, -⟩ := result_eq_some hdata
  refine h ⟨by simpa [Request.isBlank] using hblank, Keyed.has_iff.mpr ⟨e, ?_⟩⟩
  exact (filter_eq_some_iff.mp hlive).1

/-- A session is given to whoever asks for it before a lifetime after its last use has passed,
unless the clock has gone back. -/
theorem result_signedAt (hid : id ≠ "") (start used now : Rat) (user content : Value) :
    Request.lookUp.result now now id (some (signedAt used used (.object (fields start user content used)))) =
      if now < used + (maxAge : Rat) ∧ whole used ≤ whole now then some (.object (fields start user content now))
      else none := by
  simp only [Request.result, Request.isBlank, hid, live, filter_some, Stored.isOver, signedAt, decide_false,
    Bool.false_eq_true]
  rcases le_or_gt (used + (maxAge : Rat)) now with hover | hin
  · simp [not_lt.mpr hover]
  · have hage := whole_sub_le hin
    have hfresh : ¬ maxAge < whole now - whole used := by omega
    simp only [not_le.mpr hin, hin, decide_false, Bool.not_false, if_true, true_and, bind_some, change,
      Record.freshData, hfresh, if_false]
    rcases lt_or_ge (whole now) (whole used) with hback | hwhole
    · rw [if_pos (by omega), if_neg (not_le.mpr hback)]
      rfl
    · rw [if_neg (by omega), if_pos hwhole]
      exact congrArg Except.toOption (stampUse_fields now start user content used)

theorem givenAfter_of_kept (h : Kept calls id) :
    ∃ start user content used, spanOf id (deskAfter calls).log = some ⟨start, used⟩ ∧ ∀ now, givenAfter calls now id =
      if now < used + (maxAge : Rat) ∧ whole used ≤ whole now then some (.object (fields start user content now))
      else none := by
  obtain ⟨e, hget⟩ := Keyed.has_iff.mp h.2
  obtain ⟨start, user, given, since, used, -, hspan, rfl⟩ := written_deskAfter calls id hget
  refine ⟨start, user, contentOf id given since, used, hspan, fun now => ?_⟩
  rw [givenAfter_eq_result, heldIn, hget, result_signedAt h.1]

end Given

/-- After a use that is later than the start there is a time past the deadline, not before the use,
at which the store still keeps the session. -/
theorem exists_late_time {created used : Rat} (h : created < used) :
    ∃ now, created + (maxAge : Rat) < now ∧ used ≤ now ∧ now < used + (maxAge : Rat) := by
  have hage : (0 : Rat) < (maxAge : Rat) := by decide
  have hlt : max (created + (maxAge : Rat)) used < used + (maxAge : Rat) := max_lt (by linarith) (by linarith)
  obtain ⟨now, hlow, hhigh⟩ := exists_between hlt
  exact ⟨now, (le_max_left _ _).trans_lt hlow, (le_max_right _ _).trans hlow.le, hhigh⟩

/-- After any calls at any times, a look-up gives a session that the store keeps before a lifetime
after its last use has passed, with the deadline of its start. It can be given later than that if
and only if it was used later than at its start. -/
theorem given_late_iff_used (calls : List (Rat × Call)) (id : String) :
    (∀ now, (∃ data, givenAfter calls now id = some data) ↔
      Kept calls id ∧ ∃ span, spanOf id (deskAfter calls).log = some span ∧
        now < span.used + (maxAge : Rat) ∧ Seconds.whole span.used ≤ Seconds.whole now) ∧
    (∀ now data, givenAfter calls now id = some data →
      ∃ span, spanOf id (deskAfter calls).log = some span ∧
        data.member "expires_at" = .ok (.text (timeText (span.created + (maxAge : Rat))))) ∧
    ((∃ now data span, givenAfter calls now id = some data ∧
      spanOf id (deskAfter calls).log = some span ∧
        span.created + (maxAge : Rat) < now) ↔
      Kept calls id ∧ ∃ span, spanOf id (deskAfter calls).log = some span ∧
        span.created < span.used) := by
  by_cases hk : Kept calls id
  · obtain ⟨start, user, content, used, hs, hgiven⟩ := givenAfter_of_kept hk
    have hiff (now : Rat) (data : Value) : givenAfter calls now id = some data ↔
        (now < used + (maxAge : Rat) ∧ whole used ≤ whole now) ∧ .object (fields start user content now) = data := by
      rw [hgiven, Option.ite_none_right_eq_some, Option.some.injEq]
    simp only [hs, Option.some.injEq, exists_eq_left', hiff, hk, true_and]
    refine ⟨?_, ?_, ?_⟩
    · intro now
      exact ⟨fun ⟨_, hin, _⟩ => hin, fun hin => ⟨_, hin, rfl⟩⟩
    · rintro now data ⟨_, rfl⟩
      simp [Value.member, fields, List.lookup_cons]
    · constructor
      · rintro ⟨now, data, _, ⟨⟨hbefore, _⟩, _⟩, rfl, hlate⟩
        linarith
      · intro hused
        obtain ⟨now, hlate, hafter, hbefore⟩ := exists_late_time hused
        exact ⟨now, _, _, ⟨⟨hbefore, whole_mono hafter⟩, rfl⟩, rfl, hlate⟩
  · simp [givenAfter_of_not_kept hk, hk]

/-- A session that was used in time is given out after the end that it names itself. -/
theorem given_after_deadline :
    (givenAfter [(0, .create "id1" (.text "ada") (.object [])), (3000, .lookUp "id1")]
        6000 "id1").map
        (fun data => (data.member "expires_at").toOption.map Value.display) =
      some (some "1970-01-01T01:00:00") ∧
    timeText (3600 : Rat) = "1970-01-01T01:00:00" ∧
      timeText (6000 : Rat) = "1970-01-01T01:40:00" := by
  decide +kernel

end CodeAudit.Session

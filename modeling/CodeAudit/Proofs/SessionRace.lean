import CodeAudit.Proofs.SessionContent

/-! Two requests about one session at the same time. A request that has read a session writes it
back whatever was done to it in between. -/

namespace CodeAudit.Session

open Option Entries Time Store Prod

def Program.answers {α : Type} (check : α → Bool) : Program Rat α → Bool
  | .done a => check a
  | _ => false

theorem Program.answers_iff {α : Type} {check : α → Bool} {p : Program Rat α} :
    p.answers check ↔ ∃ a, p = .done a ∧ check a := by
  cases p <;> simp [answers]

inductive Side where
  | first | second
deriving DecidableEq

namespace Side

def other : Side → Side
  | .first => .second
  | .second => .first

theorem other_ne (x : Side) : x.other ≠ x := by cases x <;> decide

theorem eq_other_of_ne {x y : Side} (h : y ≠ x) : y = x.other := by
  cases x <;> cases y <;> simp_all [other]

@[simp]
theorem other_other (x : Side) : x.other.other = x := by cases x <;> rfl

end Side

structure Race where
  program : Side → Program Rat Answer
  store : Store Rat String Record

open Race

abbrev Schedule := List (Side × Rat)

variable {p : Program Rat Answer} {a : Answer}

namespace Race

variable (r : Race)

def step (x : Side) (now : Rat) : Race :=
  ⟨Function.update r.program x ((r.program x).step now r.store).1, ((r.program x).step now r.store).2⟩

def after (schedule : Schedule) : Race := schedule.foldl (fun r t => r.step t.1 t.2) r

def Ended (answer : Side → Answer) : Prop := ∀ x, r.program x = .done (answer x)

variable {r : Race} {x : Side} {now : Rat} {schedule : Schedule} {answer : Side → Answer}

theorem after_cons (r : Race) (t : Side × Rat) (schedule : Schedule) :
    r.after (t :: schedule) = (r.step t.1 t.2).after schedule := rfl

theorem step_eq (h : r.program x = p) (now : Rat) :
    p.step now r.store = ((r.step x now).program x, (r.step x now).store) := by
  subst h
  simp [step]

theorem step_of_ne {x y : Side} (h : y ≠ x) (r : Race) (now : Rat) : (r.step x now).program y = r.program y :=
  Function.update_of_ne h _ _

theorem step_of_done (h : r.program x = .done a) (now : Rat) : r.step x now = r := by
  obtain ⟨program, store⟩ := r
  simp only at h
  simp only [step, h, Program.step]
  rw [← h, Function.update_eq_self]

theorem exists_ended {check : Side → Answer → Bool} (h : ∀ x, (r.program x).answers (check x)) :
    ∃ answer, r.Ended answer ∧ ∀ x, check x (answer x) := by
  choose answer hdone hcheck using fun x => Program.answers_iff.mp (h x)
  exact ⟨answer, hdone, hcheck⟩

theorem Ended.answer_eq (hend : (r.after schedule).Ended answer) (h : r.program x = .done a) : answer x = a := by
  induction schedule generalizing r with
  | nil =>
    have hx := hend x
    rw [after, List.foldl_nil, h] at hx
    exact (Program.done.inj hx).symm
  | cons t rest ih =>
    rw [after_cons] at hend
    refine ih hend ?_
    by_cases ht : x = t.1
    · rw [← ht, step_of_done h]
      exact h
    · rw [step_of_ne ht]
      exact h

theorem after_of_done {a b : Answer} (hx : r.program x = .done a) (ho : r.program x.other = .done b)
    (schedule : Schedule) : r.after schedule = r := by
  induction schedule with
  | nil => rfl
  | cons t rest ih =>
    by_cases ht : t.1 = x
    · rw [after_cons, ht, step_of_done hx, ih]
    · rw [after_cons, Side.eq_other_of_ne ht, step_of_done ho, ih]

theorem exists_turn {b : Answer} (hx : ∀ a, r.program x ≠ .done a) (ho : r.program x.other = .done b)
    (hend : (r.after schedule).Ended answer) :
    ∃ now rest, r.after schedule = (r.step x now).after rest ∧ (r.step x now).program x.other = .done b := by
  induction schedule with
  | nil => exact absurd (hend x) (hx _)
  | cons t rest ih =>
    rw [after_cons] at hend ⊢
    by_cases ht : t.1 = x
    · subst ht
      exact ⟨t.2, rest, rfl, (step_of_ne t.1.other_ne r t.2).trans ho⟩
    · rw [Side.eq_other_of_ne ht, step_of_done ho] at hend ⊢
      exact ih hend

end Race

section Commands

variable {r : Race} {x : Side} {signed : Rat} {id : String}

theorem Race.isUp_step (h : r.store.isDown = false) (x : Side) (now : Rat) : (r.step x now).store.isDown = false :=
  (Program.isDown_step ..).trans h

theorem deletion_turn (hup : r.store.isDown = false) (hx : r.program x = delete signed (.text id)) (now : Rat) :
    ∃ a, (r.step x now).program x = .done a ∧ heldIn (r.step x now).store id = none := by
  have hstep := step_eq hx now
  simp only [delete, Program.step, delete_of_up hup] at hstep
  obtain ⟨hprogram, hstore⟩ := mk.inj hstep
  rw [← hprogram, ← hstore]
  exact ⟨_, rfl, by simp [heldIn, Value.display, Keyed.get?_erase]⟩

end Commands

variable {e : Stored Rat Record}

namespace Request

theorem granted_update_iff {new : Value} : granted (.update new) a ↔ a.1 = .ok (.bool true) := by
  obtain ⟨outcome, events⟩ := a
  cases outcome with
  | error f => simp [granted]
  | ok v =>
    cases v with
    | bool b => cases b <;> simp [granted]
    | _ => simp [granted]

def Rewrites (request : Request) (signed : Rat) (e new : Stored Rat Record) : Prop :=
  ∃ data, request.change signed e.value = .ok data ∧ new.value = .signed data (Seconds.whole signed)

section Step

variable {s s' : Store Rat String Record} {request : Request} {signed now : Rat} {id : String}

theorem granted_of_program_eq (h : request.program signed id = .done a) : request.granted a = false := by
  cases request with
  | lookUp =>
    simp only [program, Session.lookUp] at h
    split_ifs at h
    cases h
    rfl
  | update new => cases h

theorem Pending.step {p' : Program Rat Answer} (hp : request.Pending signed id e p) (h : s.isDown = false)
    (hstep : p.step now s = (p', s')) : (∃ a, p' = .done a ∧ request.granted a) ∧
      ∃ new, heldIn s' id = some new ∧ request.Rewrites signed e new := by
  obtain ⟨data, next, a, hdata, rfl, hnext, ha⟩ := hp
  rw [step_save now id h] at hstep
  obtain ⟨rfl, rfl⟩ := mk.inj hstep
  exact ⟨⟨a, hnext, granted_of_answer hdata ha⟩, _, by rw [heldIn_putAt, if_pos rfl], data, hdata, rfl⟩

theorem Pending.ne_done (hp : request.Pending signed id e p) (a : Answer) : p ≠ .done a := by
  obtain ⟨data, next, _, _, rfl, _, _⟩ := hp
  simp [save]

end Step

end Request

section Last

variable {r : Race} {x : Side} {schedule : Schedule} {answer : Side → Answer} {request : Request}
  {signed : Rat} {id : String} {e : Stored Rat Record} {b : Answer}

theorem request_turn (h : r.store.isDown = false) (hx : r.program x = request.program signed id) (now : Rat) :
    (∃ a, (r.step x now).program x = .done a ∧ request.granted a = false ∧
        (heldIn r.store id = none → heldIn (r.step x now).store id = none)) ∨
      ∃ e, heldIn r.store id = some e ∧ heldIn (r.step x now).store id = some e ∧
        request.Pending signed id e ((r.step x now).program x) := by
  obtain ⟨hheld, hcase⟩ := Request.turn h request signed now id
  rw [← hx, step_eq rfl now] at hheld hcase
  have hread := hheld id
  rw [if_pos rfl] at hread
  rcases hcase with ⟨a, hdone, ha, -⟩ | ⟨e, hblank, hlive, hpending⟩
  · refine .inl ⟨a, hdone, Request.granted_of_miss ha, fun hn => ?_⟩
    rw [hread, hn, Request.readOf]
    split <;> rfl
  · refine .inr ⟨e, (filter_eq_some_iff.mp hlive).1, ?_, hpending⟩
    rw [hread, Request.readOf, hblank]
    exact hlive

variable (hup : r.store.isDown = false) (ho : r.program x.other = .done b) (hend : (r.after schedule).Ended answer)

include hup ho hend

theorem pending_last (hx : request.Pending signed id e (r.program x)) : request.granted (answer x) ∧
      ∃ new, heldIn (r.after schedule).store id = some new ∧ request.Rewrites signed e new := by
  obtain ⟨now, rest, hafter, hother⟩ := exists_turn hx.ne_done ho hend
  rw [hafter] at hend ⊢
  obtain ⟨⟨a, hdone, ha⟩, hnew⟩ := hx.step hup (step_eq rfl now)
  rw [hend.answer_eq hdone, after_of_done hdone hother]
  exact ⟨ha, hnew⟩

theorem request_last (hx : r.program x = request.program signed id) : (request.granted (answer x) = false ∧
        (heldIn r.store id = none → heldIn (r.after schedule).store id = none)) ∨
      (request.granted (answer x) ∧ ∃ e new, heldIn r.store id = some e ∧
        heldIn (r.after schedule).store id = some new ∧ request.Rewrites signed e new) := by
  by_cases hover : ∃ a, r.program x = .done a
  · obtain ⟨a, ha⟩ := hover
    rw [hend.answer_eq ha, after_of_done ha ho]
    exact .inl ⟨Request.granted_of_program_eq (hx.symm.trans ha), fun hn => hn⟩
  obtain ⟨now, rest, hafter, hother⟩ := exists_turn (not_exists.mp hover) ho hend
  rw [hafter] at hend ⊢
  rcases request_turn hup hx now with ⟨a, hdone, ha, hnone⟩ | ⟨e, he, _, hpending⟩
  · rw [hend.answer_eq hdone, after_of_done hdone hother]
    exact .inl ⟨ha, hnone⟩
  · obtain ⟨ha, new, hnew, hrewrites⟩ := pending_last (isUp_step hup x now) hother hend hpending
    exact .inr ⟨ha, e, new, he, hnew, hrewrites⟩

theorem deletion_last (hx : r.program x = delete signed (.text id)) :
    heldIn (r.after schedule).store id = none := by
  obtain ⟨now, rest, hafter, hother⟩ := exists_turn (by simp [hx, delete]) ho hend
  obtain ⟨a, hdone, hgone⟩ := deletion_turn hup hx now
  rwa [hafter, after_of_done hdone hother]

end Last

section Deletion

variable {s : Store Rat String Record} {request : Request} {signed signed' : Rat} {id : String}
  {schedule : Schedule} {answer : Side → Answer}

def turnsBefore (schedule : Schedule) : Nat := (schedule.takeWhile (·.1 = .first)).length

theorem turnsBefore_first (now : Rat) (schedule : Schedule) :
    turnsBefore ((.first, now) :: schedule) = turnsBefore schedule + 1 := by
  simp [turnsBefore]

theorem turnsBefore_second (now : Rat) (schedule : Schedule) : turnsBefore ((.second, now) :: schedule) = 0 := by
  simp [turnsBefore]

theorem kept_of_pending {r : Race} (hup : r.store.isDown = false)
    (hfirst : request.Pending signed id e (r.program .first))
    (hsecond : r.program .second = delete signed' (.text id)) (hend : (r.after schedule).Ended answer) :
    request.granted (answer .first) ∧ ((heldIn (r.after schedule).store id).isSome ↔ turnsBefore schedule = 0) := by
  cases schedule with
  | nil => exact absurd (hend .first) (hfirst.ne_done _)
  | cons t rest =>
    obtain ⟨side, now⟩ := t
    rw [after_cons] at hend ⊢
    cases side with
    | first =>
      have hother : (r.step .first now).program .second = delete signed' (.text id) :=
        (step_of_ne (by decide) r now).trans hsecond
      obtain ⟨⟨a, hdone, ha⟩, _⟩ := hfirst.step hup (step_eq rfl now)
      have hgone := deletion_last (x := .second) (isUp_step hup _ now) hdone hend hother
      rw [hend.answer_eq hdone, turnsBefore_first]
      refine ⟨ha, ?_⟩
      simp [hgone]
    | second =>
      have hother : request.Pending signed id e ((r.step .second now).program .first) := by
        exact hfirst
      obtain ⟨b, hdone, _⟩ := deletion_turn hup hsecond now
      obtain ⟨ha, new, hnew, _⟩ := pending_last (x := .first) (isUp_step hup _ now) hdone hend hother
      refine ⟨ha, ?_⟩
      simp [hnew, turnsBefore_second]

/-- When a request and the deletion of its session are both over, the store holds the session if and
only if the deletion came between the two commands of a request that had success. -/
theorem kept_iff_deleted_between {r : Race} (hup : r.store.isDown = false)
    (hfirst : r.program .first = request.program signed id)
    (hsecond : r.program .second = delete signed' (.text id))
    (hend : (r.after schedule).Ended answer) :
    (heldIn (r.after schedule).store id).isSome = true ↔
      turnsBefore schedule = 1 ∧ request.granted (answer .first) = true := by
  cases schedule with
  | nil => cases hsecond.symm.trans (hend .second)
  | cons t rest =>
    obtain ⟨side, now⟩ := t
    rw [Race.after_cons] at hend ⊢
    cases side with
    | first =>
      have hother : (r.step .first now).program .second = delete signed' (.text id) :=
        (Race.step_of_ne (by decide) r now).trans hsecond
      have hup' := isUp_step hup .first now
      rw [turnsBefore_first]
      rcases request_turn hup hfirst now with ⟨a, hdone, ha, _⟩ | ⟨e, _, _, hpending⟩
      · have hgone := deletion_last (x := .second) hup' hdone hend hother
        simp [hgone, hend.answer_eq hdone, ha]
      · obtain ⟨ha, hkept⟩ := kept_of_pending hup' hpending hother hend
        simp [hkept, ha]
    | second =>
      have hother : (r.step .second now).program .first = request.program signed id :=
        (Race.step_of_ne (by decide) r now).trans hfirst
      obtain ⟨b, hdone, hgone⟩ := deletion_turn hup hsecond now
      rw [turnsBefore_second]
      rcases request_last (x := .first) (isUp_step hup _ now) hdone hend hother with ⟨_, hnone⟩ | ⟨_, e, _, he, _⟩
      · simp [hnone hgone]
      · rw [hgone] at he
        cases he

/-- A session is back in the store when a request that had read it before its deletion writes it. -/
theorem kept_after_deletion : let r : Race := ⟨fun
        | .first => lookUp 10 "id1"
        | .second => delete 10 (.text "id1"),
      (deskAfter [(0, .create "id1" (.text "ada") (.object []))]).store⟩
    let schedule : Schedule := [(.first, 10), (.second, 10), (.first, 10)]
    ∃ answer, (r.after schedule).Ended answer ∧ Request.granted .lookUp (answer .first) = true ∧
      (heldIn (r.after schedule).store "id1").isSome = true := by
  intro r schedule
  have hdone (x : Side) : ((r.after schedule).program x).answers
      (fun a => x = .second || Request.granted .lookUp a) = true := by
    cases x <;> decide +kernel
  obtain ⟨answer, hend, hanswer⟩ := Race.exists_ended hdone
  exact ⟨answer, hend, by simpa using hanswer .first, by decide +kernel⟩

theorem kept_iff_deleted_between_update : let r : Race := ⟨fun
        | .first => update 10 "id1" (.object [("page", .int 3)])
        | .second => delete 11 (.text "id1"),
      (deskAfter [(0, .create "id1" (.text "ada") (.object []))]).store⟩
    let schedule : Schedule := [(.first, 10), (.second, 11), (.first, 12)]
    ∃ answer, (r.after schedule).Ended answer ∧
      (heldIn (r.after schedule).store "id1").isSome = true ∧
      Request.granted (.update (.object [("page", .int 3)])) (answer .first) = true := by
  intro r schedule
  have hdone (x : Side) : ((r.after schedule).program x).answers (fun _ => true) = true := by
    cases x <;> decide +kernel
  have hkept : (heldIn (r.after schedule).store "id1").isSome = true := by decide +kernel
  obtain ⟨answer, hend, _⟩ := Race.exists_ended hdone
  have hfirst : r.program .first = Request.program 10 "id1" (.update (.object [("page", .int 3)])) := rfl
  exact ⟨answer, hend, hkept, ((kept_iff_deleted_between rfl hfirst rfl hend).mp hkept).2⟩

end Deletion

section Updates

def Holding (e : Stored Rat Record) (content : Entries) : Prop :=
  ∃ record second, e.value = .signed (.object record) second ∧ record.lookup "data" = some (.object content)

variable {content new : Entries} {e e' : Stored Rat Record} {signed : Rat}

theorem updated_of_lookup {record : Entries} {second : Int} (hcontent : content.Distinct)
    (h : record.lookup "data" = some (.object content)) (signed : Rat) (new : Entries) :
    updated signed (.signed (.object record) second) (.object new) =
      .ok (.object ((record.put "data" (.object (content.merge new))).put "last_activity"
        (.text (timeText signed)))) := by
  have hmerge : Entries.ofList (content ++ new) = content.merge new := by
    rw [ofList_append, ofList_of_distinct hcontent]
  simp only [updated, Record.data, ok_bind, Value.member, h, Value.mergeInto_object, hmerge]
  rfl

theorem Holding.rewritten (h : Holding e content) (hcontent : content.Distinct)
    (hrewrites : (Request.update (.object new)).Rewrites signed e e') : Holding e' (content.merge new) := by
  obtain ⟨record, second, hvalue, hlookup⟩ := h
  obtain ⟨data, hdata, hvalue'⟩ := hrewrites
  rw [Request.change, hvalue, updated_of_lookup hcontent hlookup] at hdata
  cases hdata
  refine ⟨_, _, hvalue', ?_⟩
  rw [lookup_put_of_ne (by decide), lookup_put]
  simp

variable {r : Race} {x : Side} {schedule : Schedule} {answer : Side → Answer} {id : String} {base : Entries}
  {signs : Side → Rat} {news : Side → Entries}

def updateOf (news : Side → Entries) (x : Side) : Request := .update (.object (news x))

section Contents

variable (hup : r.store.isDown = false) (hbase : Holding e base) (hdistinct : base.Distinct)
  (hend : (r.after schedule).Ended answer)

include hup hbase hdistinct hend

theorem content_of_both_pending (hpending : ∀ x, (updateOf news x).Pending (signs x) id e (r.program x)) :
    ∃ z rest e', schedule.map fst = z :: rest ∧ heldIn (r.after schedule).store id = some e' ∧
      Holding e' (base.merge (news z.other)) := by
  cases schedule with
  | nil => exact absurd (hend .first) ((hpending .first).ne_done _)
  | cons t rest =>
    have hother : (updateOf news t.1.other).Pending (signs t.1.other) id e
        ((r.step t.1 t.2).program t.1.other) := by
      rw [step_of_ne t.1.other_ne]
      exact hpending t.1.other
    obtain ⟨⟨a, hdone, _⟩, _⟩ := (hpending t.1).step hup (step_eq rfl t.2)
    obtain ⟨_, e', he', hrewrites⟩ := pending_last (isUp_step hup _ t.2) (by simpa using hdone) hend hother
    exact ⟨t.1, rest.map fst, e', rfl, he', hbase.rewritten hdistinct hrewrites⟩

def finalContent (base : Entries) (news : Side → Entries) (x y z : Side) : Entries :=
  if x = y then (base.merge (news x)).merge (news x.other) else base.merge (news z.other)

variable (hheld : heldIn r.store id = some e) (hgranted : ∀ y, (updateOf news y).granted (answer y))

include hheld hgranted

theorem content_of_one_pending (hx : (updateOf news x).Pending (signs x) id e (r.program x))
    (ho : r.program x.other = (updateOf news x.other).program (signs x.other) id) :
    ∃ y z rest e', schedule.map fst = y :: z :: rest ∧ heldIn (r.after schedule).store id = some e' ∧
      Holding e' (finalContent base news x y z) := by
  cases schedule with
  | nil => exact absurd (hend x) (hx.ne_done _)
  | cons t rest =>
    rw [after_cons] at hend ⊢
    by_cases ht : t.1 = x
    · have hother : (r.step x t.2).program x.other = (updateOf news x.other).program (signs x.other) id :=
        (step_of_ne x.other_ne r t.2).trans ho
      obtain ⟨⟨a, hdone, _⟩, mid, hmid, hfirst⟩ := hx.step hup (step_eq rfl t.2)
      rw [ht] at hend ⊢
      cases rest with
      | nil =>
        have hover := Request.granted_of_program_eq (hother.symm.trans (hend x.other))
        rw [hgranted] at hover
        cases hover
      | cons u more =>
        rcases request_last (isUp_step hup x t.2) (by simpa using hdone) hend hother
          with ⟨hfail, _⟩ | ⟨_, e', new, he', hnew, hlast⟩
        · rw [hgranted] at hfail
          cases hfail
        · cases hmid.symm.trans he'
          refine ⟨x, u.1, more.map fst, new, by simp [ht], hnew, ?_⟩
          rw [finalContent, if_pos rfl]
          exact (hbase.rewritten hdistinct hfirst).rewritten (hdistinct.merge _) hlast
    · have hy := Side.eq_other_of_ne ht
      have hother : (updateOf news x).Pending (signs x) id e ((r.step x.other t.2).program x) := by
        rw [step_of_ne x.other_ne.symm]
        exact hx
      rw [hy] at hend ⊢
      rcases request_turn hup ho t.2 with ⟨a, hdone, ha, _⟩ | ⟨e', he', _, hpending⟩
      · rw [← hend.answer_eq hdone, hgranted] at ha
        cases ha
      · cases hheld.symm.trans he'
        have hboth : ∀ y, (updateOf news y).Pending (signs y) id e ((r.step x.other t.2).program y) := by
          intro y
          by_cases hyx : y = x
          · rw [hyx]
            exact hother
          · rw [Side.eq_other_of_ne hyx]
            exact hpending
        obtain ⟨z, more, e', hrest, he', hcontent⟩ :=
          content_of_both_pending (isUp_step hup _ t.2) hbase hdistinct hend hboth
        refine ⟨x.other, z, more, e', by simp [hy, hrest], he', ?_⟩
        rw [finalContent, if_neg x.other_ne.symm]
        exact hcontent

theorem content_of_start (hstart : ∀ x, r.program x = (updateOf news x).program (signs x) id) :
    ∃ x y z rest e', schedule.map fst = x :: y :: z :: rest ∧
      heldIn (r.after schedule).store id = some e' ∧ Holding e' (finalContent base news x y z) := by
  cases schedule with
  | nil => cases (hstart .first).symm.trans (hend .first)
  | cons t rest =>
    rw [after_cons] at hend ⊢
    have hother := (step_of_ne t.1.other_ne r t.2).trans (hstart t.1.other)
    rcases request_turn hup (hstart t.1) t.2 with ⟨a, hdone, ha, _⟩ | ⟨e', he', hstill, hpending⟩
    · rw [← hend.answer_eq hdone, hgranted] at ha
      cases ha
    · cases hheld.symm.trans he'
      obtain ⟨y, z, more, e', hrest, he', hcontent⟩ :=
        content_of_one_pending (isUp_step hup _ t.2) hbase hdistinct hend hstill hgranted hpending hother
      exact ⟨t.1, y, z, more, e', by simp [hrest], he', hcontent⟩

end Contents

def KeepsBoth (content : Entries) (news : Side → Entries) : Prop :=
  ∀ x key v, (news x).lookup key = some v →
    content.lookup key = some v ∨ ∃ w, (news x.other).lookup key = some w ∧ content.lookup key = some w

theorem keepsBoth_serial (base : Entries) (hnews : ∀ x, (news x).Distinct) (x : Side) :
    KeepsBoth ((base.merge (news x)).merge (news x.other)) news := by
  intro y key v hv
  rw [lookup_merge (hnews x.other), lookup_merge (hnews x)]
  by_cases hy : y = x
  · subst hy
    cases (news y.other).lookup key <;> simp [hv]
  · rw [Side.eq_other_of_ne hy] at hv
    simp [hv]

theorem keepsBoth_overlap_iff (base : Entries) (hnews : ∀ x, (news x).Distinct) (z : Side) :
    KeepsBoth (base.merge (news z.other)) news ↔
      ∀ key v, (news z).lookup key = some v → (news z.other).lookup key = none → base.lookup key = some v := by
  constructor
  · intro h key v hv hnone
    rcases h z key v hv with hc | ⟨w, hw, _⟩
    · rwa [lookup_merge (hnews z.other), hnone, none_or] at hc
    · rw [hnone] at hw
      cases hw
  · intro h y key v hv
    rw [lookup_merge (hnews z.other)]
    by_cases hy : y = z
    · subst hy
      cases ho : (news y.other).lookup key with
      | none => exact .inl (h key v hv ho)
      | some w => exact .inr ⟨w, rfl, rfl⟩
    · rw [Side.eq_other_of_ne hy] at hv
      exact .inl (by rw [hv, some_or])

/-- Two updates of one session that both had success: one after the other, they leave the entries of
both. When both read before either writes, those of the first to write are lost, save what stood
there before or is in the other one too. -/
theorem both_kept_iff (hup : r.store.isDown = false) (hheld : heldIn r.store id = some e)
    (hbase : Holding e base) (hdistinct : base.Distinct) (hnews : ∀ x, (news x).Distinct)
    (hstart : ∀ x, r.program x = update (signs x) id (.object (news x)))
    (hend : (r.after schedule).Ended answer) (htrue : ∀ x, (answer x).1 = .ok (.bool true)) :
    ∃ x y z rest e', schedule.map Prod.fst = x :: y :: z :: rest ∧
      heldIn (r.after schedule).store id = some e' ∧ Holding e' (finalContent base news x y z) ∧
      (KeepsBoth (finalContent base news x y z) news ↔ x = y ∨
        ∀ key v, (news z).lookup key = some v → (news z.other).lookup key = none →
          base.lookup key = some v) := by
  have hgranted (x : Side) : (updateOf news x).granted (answer x) = true := Request.granted_update_iff.mpr (htrue x)
  obtain ⟨x, y, z, rest, e', hturns, he', hcontent⟩ := content_of_start hup hbase hdistinct hend hheld hgranted hstart
  refine ⟨x, y, z, rest, e', hturns, he', hcontent, ?_⟩
  unfold finalContent
  split
  next hxy => exact iff_of_true (keepsBoth_serial base hnews x) (.inl hxy)
  next hxy => rw [keepsBoth_overlap_iff base hnews z, or_iff_right hxy]

/-- Of two updates that read before either writes, the second to write undoes the first. -/
theorem update_lost : let news : Side → Entries := fun
      | .first => [("page", .int 3)]
      | .second => [("theme", .text "dark")]
    let r : Race := ⟨fun x => update 10 "id1" (.object (news x)),
      (deskAfter [(0, .create "id1" (.text "ada") (.object []))]).store⟩
    let schedule : Schedule := [(.first, 10), (.second, 10), (.first, 11), (.second, 12)]
    ∃ answer e content, (r.after schedule).Ended answer ∧ (∀ x, (answer x).1 = .ok (.bool true)) ∧
      heldIn (r.after schedule).store "id1" = some e ∧ Holding e content ∧ ¬ KeepsBoth content news := by
  intro news r schedule
  have hdone (x : Side) : ((r.after schedule).program x).answers (updateOf news x).granted = true := by
    cases x <;> decide +kernel
  obtain ⟨answer, hend, hgranted⟩ := Race.exists_ended hdone
  have hstart (x : Side) : r.program x = (updateOf news x).program ((fun _ => 10 : Side → Rat) x) "id1" := rfl
  have hbase : Holding (signedAt 0 0 (.object (fields 0 (.text "ada") (.object []) 0))) [] := ⟨_, _, rfl, rfl⟩
  obtain ⟨x, y, z, rest, e, hturns, he, hcontent⟩ :=
    content_of_start rfl hbase List.nodup_nil hend rfl hgranted hstart
  cases hturns
  refine ⟨answer, e, _, hend, fun x => Request.granted_update_iff.mp (hgranted x), he, hcontent, ?_⟩
  intro hkeeps
  rcases hkeeps .first "page" (.int 3) rfl with hpage | ⟨w, hw, _⟩
  · have hnone : (finalContent [] news .first .second .first).lookup "page" = none := by decide
    rw [hnone] at hpage
    cases hpage
  · cases hw

theorem both_kept_iff_same_key : let news : Side → Entries := fun
      | .first => [("page", .int 3)]
      | .second => [("page", .int 4)]
    let r : Race := ⟨fun x => update 10 "id1" (.object (news x)),
      (deskAfter [(0, .create "id1" (.text "ada") (.object []))]).store⟩
    let schedule : Schedule := [(.first, 10), (.second, 10), (.second, 11), (.first, 12)]
    ∃ e content, heldIn (r.after schedule).store "id1" = some e ∧ Holding e content ∧
      KeepsBoth content news := by
  intro news r schedule
  have hdone (x : Side) : ((r.after schedule).program x).answers (updateOf news x).granted = true := by
    cases x <;> decide +kernel
  obtain ⟨answer, hend, hgranted⟩ := Race.exists_ended hdone
  have hstart (x : Side) : r.program x = update ((fun _ => 10 : Side → Rat) x) "id1" (.object (news x)) := rfl
  have hbase : Holding (signedAt 0 0 (.object (fields 0 (.text "ada") (.object []) 0))) [] := ⟨_, _, rfl, rfl⟩
  have hnews (x : Side) : (news x).Distinct := by cases x <;> exact List.nodup_singleton _
  obtain ⟨x, y, z, rest, e, hturns, he, hcontent, hiff⟩ :=
    both_kept_iff rfl rfl hbase List.nodup_nil hnews hstart hend
      (fun x => Request.granted_update_iff.mp (hgranted x))
  cases hturns
  refine ⟨e, _, he, hcontent, hiff.mpr (.inr ?_)⟩
  intro key v hsecond hfirst
  by_cases hk : key = "page"
  · subst hk
    cases hfirst
  · have hnone : (news .second).lookup key = none := Entries.lookup_eq_none (by simpa [news] using hk)
    rw [hnone] at hsecond
    cases hsecond

end Updates

end CodeAudit.Session

import CodeAudit.Proofs.Dictionary
import CodeAudit.Session

/-! What a look-up gives of a session. A call changes the entry of a session by that entry alone, so
what is in a session can be read off the log. -/

namespace CodeAudit.Session

open Store Option List Time Value Entries

namespace Program

variable {α : Type}

def step (now : Rat) : Program Rat α → Store Rat String Record → Program Rat α × Store Rat String Record
  | .done a, s => (.done a, s)
  | .get key next, s => let (r, s) := s.get now key; (next r, s)
  | .put key record lifetime next, s => let (r, s) := s.put now key record lifetime; (next r, s)
  | .delete key next, s => let (r, s) := s.delete now key; (next r, s)
  | .scan next, s =>
    let found := s.keys.filter fun key => Text.startsWith (keyOf "") key
    (next (if s.isDown then .error Store.down else .ok found), s)

variable (p : Program Rat α) (now : Rat) (s : Store Rat String Record)

theorem run_step : p.run now s = (p.step now s).1.run now (p.step now s).2 := by
  cases p <;> rfl

theorem isDown_step : (p.step now s).2.isDown = s.isDown := by
  cases p <;> simp [step]

theorem isDown_run : (p.run now s).2.isDown = s.isDown := by
  induction p generalizing s <;> simp_all [run]

end Program

inductive Call where
  | create (id : String) (user data : Value)
  | lookUp (id : String)
  | update (id : String) (new : Value)
  | delete (id : Value)
  | cleanUp

namespace Call

def program (now : Rat) : Call → Program Rat Answer
  | .create id user data => Session.create now id user data
  | .lookUp id => Session.lookUp now id
  | .update id new => Session.update now id new
  | .delete id => Session.delete now id
  | .cleanUp => Session.cleanUp now

def ask (now : Rat) (call : Call) (s : Store Rat String Record) : Outcome Value × Store Rat String Record :=
  (((call.program now).run now s).1.1, ((call.program now).run now s).2)

def concerns (id : String) : Call → Bool
  | .create other _ _ => other = id
  | .lookUp other => other = id
  | .update other _ => other = id
  | .delete v => v.display = id
  | .cleanUp => true

def starts (id : String) : Call → Bool
  | .create other _ _ => other = id
  | _ => false

end Call

structure Turn where
  time : Rat
  call : Call
  answer : Outcome Value

structure Desk where
  store : Store Rat String Record := {}
  log : List Turn := []

def Desk.next (d : Desk) (now : Rat) (call : Call) : Desk :=
  ⟨(call.ask now d.store).2, d.log ++ [⟨now, call, (call.ask now d.store).1⟩]⟩

def deskAfter (calls : List (Rat × Call)) : Desk := calls.foldl (fun d e => d.next e.1 e.2) {}

variable (calls : List (Rat × Call))

theorem deskAfter_append (now : Rat) (call : Call) :
    deskAfter (calls ++ [(now, call)]) = (deskAfter calls).next now call := by
  simp [deskAfter]

theorem isUp_deskAfter : (deskAfter calls).store.isDown = false := by
  induction calls using List.reverseRecOn with
  | nil => rfl
  | append_singleton calls e ih =>
    rw [deskAfter_append]
    exact (Program.isDown_run ..).trans ih

def found? : Outcome Value → Option Value
  | .ok .null => none
  | .ok v => some v
  | .error _ => none

/-! The entry of a session, and what single commands do to it. -/

def heldIn (s : Store Rat String Record) (id : String) : Option (Stored Rat Record) := s.entries.get? (keyOf id)

def signedAt (signed now : Rat) (data : Value) : Stored Rat Record :=
  ⟨.signed data (Seconds.whole signed), some (now + (maxAge : Rat))⟩

def putAt (s : Store Rat String Record) (signed now : Rat) (id : String) (data : Value) : Store Rat String Record :=
  { s with entries := s.entries.put (keyOf id) (signedAt signed now data) }

def fields (start : Rat) (user data : Value) (used : Rat) : Entries := [
  ("user_id", user), ("data", data), ("created_at", .text (timeText start)),
  ("expires_at", .text (timeText (start + (maxAge : Rat)))), ("last_activity", .text (timeText used))]

theorem keyOf_inj {a b : String} : keyOf a = keyOf b ↔ a = b := String.append_right_inj _

section Commands

variable (s : Store Rat String Record) (now : Rat) (id other : String)

theorem heldIn_putAt (signed : Rat) (data : Value) : heldIn (putAt s signed now id data) other =
    if id = other then some (signedAt signed now data) else heldIn s other := by
  simp only [heldIn, putAt, Keyed.get?_put, beq_iff_eq, keyOf_inj, @eq_comm _ other id]

theorem heldIn_touch (key : String) : heldIn (s.touch now key) id =
    if keyOf id = key then live now (heldIn s id) else heldIn s id := by
  simp only [heldIn, get?_touch, beq_iff_eq]

theorem heldIn_erase (key : String) : heldIn { s with entries := s.entries.erase key } id =
    if keyOf id = key then none else heldIn s id := by
  simp only [heldIn, Keyed.get?_erase, beq_iff_eq]

variable {s}

theorem step_save {α : Type} (h : s.isDown = false) (signed : Rat) (data : Value)
    (next : Outcome Unit → Program Rat α) :
    (save signed id data next).step now s = (next (.ok ()), putAt s signed now id data) := by
  simp only [save, Program.step, put_of_up h]
  rfl

end Commands

/-! Look-ups and updates read the session, make something of it and write that back. -/

inductive Request where
  | lookUp
  | update (new : Value)

namespace Request

def program (signed : Rat) (id : String) : Request → Program Rat Answer
  | .lookUp => Session.lookUp signed id
  | .update new => Session.update signed id new

def granted : Request → Answer → Bool
  | .lookUp, a => (found? a.1).isSome
  | .update _, (.ok (.bool true), _) => true
  | .update _, _ => false

def change (signed : Rat) (record : Record) : Request → Outcome Value
  | .lookUp => record.freshData (Seconds.whole signed) >>= stampUse signed
  | .update new => updated signed record new

def call (id : String) : Request → Call
  | .lookUp => .lookUp id
  | .update new => .update id new

def isBlank (id : String) : Request → Bool
  | .lookUp => id = ""
  | .update _ => false

def miss : Request → Value
  | .lookUp => .null
  | .update _ => .bool false

def answer (data : Value) : Request → Value
  | .lookUp => data
  | .update _ => .bool true

variable (request : Request) (signed now : Rat) (id : String) (held : Option (Stored Rat Record))

def readOf : Option (Stored Rat Record) := if request.isBlank id then held else live now held

def result : Option Value :=
  if request.isBlank id then none else (live now held).bind fun e => (request.change signed e.value).toOption

def effect : Option (Stored Rat Record) :=
  ((request.result now now id held).map (signedAt now now)).or (request.readOf now id held)

def Pending (e : Stored Rat Record) (p : Program Rat Answer) : Prop :=
  ∃ data next a, request.change signed e.value = .ok data ∧ p = save signed id data next ∧
    next (.ok ()) = .done a ∧ a.1 = .ok (request.answer data)

variable {request signed now id} {s : Store Rat String Record} {a : Answer} {data : Value}
  {e : Stored Rat Record} {record : Record}

theorem found?_of_use (h : change signed record .lookUp = .ok data) : found? (.ok data) = some data := by
  obtain ⟨read, -, h⟩ := bind_eq_ok_iff.mp h
  cases read <;> simp_all [stampUse, assign] <;> simp [← h, found?]

theorem result_eq_some {held : Option (Stored Rat Record)} (h : request.result signed now id held = some data) :
    request.isBlank id = false ∧ ∃ e, live now held = some e ∧ request.change signed e.value = .ok data := by
  obtain ⟨hblank, h⟩ := Option.ite_none_left_eq_some.mp h
  obtain ⟨e, hlive, hdata⟩ := Option.bind_eq_some_iff.mp h
  refine ⟨by simpa using hblank, e, hlive, ?_⟩
  cases hc : request.change signed e.value <;> simp_all [Except.toOption]

theorem granted_of_miss (h : a.1 = .ok request.miss) : request.granted a = false := by
  obtain ⟨outcome, events⟩ := a
  cases request <;> simp_all [granted, miss, found?]

theorem granted_of_answer (hdata : request.change signed record = .ok data)
    (h : a.1 = .ok (request.answer data)) : request.granted a := by
  obtain ⟨outcome, events⟩ := a
  cases request with
  | lookUp => simp_all [granted, answer, found?_of_use hdata]
  | update new => simp_all [granted, answer]

theorem turn (h : s.isDown = false) (request : Request) (signed now : Rat) (id : String) :
    let p := (request.program signed id).step now s
    (∀ other, heldIn p.2 other = if id = other then request.readOf now id (heldIn s other) else heldIn s other) ∧
    ((∃ a, p.1 = .done a ∧ a.1 = .ok request.miss ∧ request.result signed now id (heldIn s id) = none) ∨
      ∃ e, request.isBlank id = false ∧ live now (heldIn s id) = some e ∧ request.Pending signed id e p.1) := by
  have hfind : s.find? now (keyOf id) = (live now (heldIn s id)).map Stored.value := find?_eq s now (keyOf id)
  have htouch (other : String) : heldIn (s.touch now (keyOf id)) other =
      if id = other then live now (heldIn s other) else heldIn s other := by
    simp only [heldIn_touch, keyOf_inj, @eq_comm _ other id]
  cases request with
  | lookUp =>
    by_cases hid : id = ""
    · simp [program, Session.lookUp, hid, Program.step, readOf, result, isBlank, miss]
    · simp only [program, Session.lookUp, hid, if_false, Program.step, get_of_up h, hfind]
      refine ⟨by simpa [readOf, isBlank, hid] using htouch, ?_⟩
      cases hl : live now (heldIn s id) with
      | none => exact .inl ⟨_, rfl, rfl, by simp [result, hl]⟩
      | some e =>
        cases hf : e.value.freshData (Seconds.whole signed) >>= stampUse signed with
        | error f =>
          simp only [map_some, hf]
          exact .inl ⟨_, rfl, rfl, by simp [result, hl, change, hf, Except.toOption]⟩
        | ok data =>
          simp only [map_some, hf]
          exact .inr ⟨e, by simp [isBlank, hid], rfl, data, _, _, hf, rfl, rfl, rfl⟩
  | update new =>
    simp only [program, Session.update, Program.step, get_of_up h, hfind]
    refine ⟨by simpa [readOf, isBlank] using htouch, ?_⟩
    cases hl : live now (heldIn s id) with
    | none => exact .inl ⟨_, rfl, rfl, by simp [result, hl]⟩
    | some e =>
      cases hf : updated signed e.value new with
      | error f =>
        simp only [map_some, hf]
        exact .inl ⟨_, rfl, rfl, by simp [result, hl, change, hf, Except.toOption]⟩
      | ok data =>
        simp only [map_some, hf]
        exact .inr ⟨e, rfl, rfl, data, _, _, hf, rfl, rfl, rfl⟩

theorem ask_eq (h : s.isDown = false) (request : Request) (now : Rat) (id : String) :
    ((request.call id).ask now s).1 =
      .ok ((request.result now now id (heldIn s id)).elim request.miss request.answer) ∧
    ∀ other, heldIn ((request.call id).ask now s).2 other =
      if id = other then request.effect now id (heldIn s other) else heldIn s other := by
  have hprogram : (request.call id).program now = request.program now id := by cases request <;> rfl
  have hup := ((request.program now id).isDown_step now s).trans h
  simp only [Call.ask, hprogram, Program.run_step (request.program now id)]
  obtain ⟨hheld, ⟨a, hdone, ha, hnone⟩ | ⟨e, hblank, hlive, data, next, a, hdata, hsave, hnext, ha⟩⟩ :=
    turn h request now now id
  · rw [hdone]
    refine ⟨by simpa [Program.run, hnone] using ha, fun other => (hheld other).trans ?_⟩
    split
    next ho =>
      subst ho
      simp [effect, hnone]
    next => rfl
  · have hresult : request.result now now id (heldIn s id) = some data := by
      simp [result, hblank, hlive, hdata, Except.toOption]
    rw [hsave, Program.run_step, step_save now id hup, hnext]
    refine ⟨by simpa [Program.run, hresult] using ha, fun other => ?_⟩
    simp only [Program.run, heldIn_putAt, hheld]
    split
    next ho =>
      subst ho
      simp [effect, hresult]
    next => rfl

end Request

def uncleared (now : Rat) (held : Option (Stored Rat Record)) : Option (Stored Rat Record) :=
  (live now held).filter fun e => (isOver now e.value).toOption.any (!·)

variable {id : String} {call : Call}

namespace Call

def effect (now : Rat) (id : String) (held : Option (Stored Rat Record)) : Call → Option (Stored Rat Record)
  | .create other user data =>
    if other = id then some (signedAt now now (.object (fields now user data now))) else held
  | .lookUp other => if other = id then Request.lookUp.effect now other held else held
  | .update other new => if other = id then (Request.update new).effect now other held else held
  | .delete v => if v.display = id then none else held
  | .cleanUp => uncleared now held

theorem effect_of_not_concerns (h : call.concerns id = false) (now : Rat) (held : Option (Stored Rat Record)) :
    call.effect now id held = held := by
  cases call <;> simp_all [concerns, effect]

theorem effect_none (h : call.starts id = false) (now : Rat) : call.effect now id none = none := by
  cases call <;> simp_all [starts, effect, Request.effect, Request.result, Request.readOf, uncleared, live]

end Call

section Effect

variable {s : Store Rat String Record} {now : Rat}

theorem uncleared_uncleared (now : Rat) (held : Option (Stored Rat Record)) :
    uncleared now (uncleared now held) = uncleared now held := by
  simp only [uncleared, live, Option.filter_filter]
  congr 1
  funext e
  cases e.isOver now <;> simp

def isCleared (now : Rat) (held : Option (Stored Rat Record)) : Bool :=
  (live now held).isSome && (uncleared now held).isNone

theorem isCleared_uncleared (now : Rat) (held : Option (Stored Rat Record)) :
    isCleared now (uncleared now held) = false := by
  rw [isCleared, uncleared_uncleared]
  cases hu : uncleared now held <;> simp [live]

theorem run_sweep_cons (h : s.isDown = false) (now : Rat) (key : String) (rest : List String) (n : Nat) :
    ∃ s', (sweep now (key :: rest) n).run now s =
        (sweep now rest (n + (isCleared now (s.entries.get? key)).toNat)).run now s' ∧ s'.isDown = false ∧
      ∀ k, s'.entries.get? k = if k = key then uncleared now (s.entries.get? k) else s.entries.get? k := by
  have ht : (s.touch now key).isDown = false := isDown_touch.trans h
  simp only [sweep, Program.run, get_of_up h, find?_eq, isCleared, uncleared]
  cases hl : live now (s.entries.get? key) with
  | none =>
    refine ⟨s.touch now key, rfl, ht, fun k => ?_⟩
    by_cases hk : k = key <;> simp [get?_touch, hk, hl]
  | some e =>
    by_cases hkeep : (isOver now e.value).toOption.any (!·)
    · refine ⟨s.touch now key, by simp [hkeep], ht, fun k => ?_⟩
      by_cases hk : k = key <;> simp [get?_touch, hk, hl, hkeep, filter_some]
    · refine ⟨{ s.touch now key with entries := (s.touch now key).entries.erase key }, ?_, ht, fun k => ?_⟩
      · simp only [map_some, hkeep]
        simp [Program.run, delete_of_up ht, hkeep]
      · by_cases hk : k = key <;> simp [Keyed.get?_erase, get?_touch, hk, hl, hkeep, filter_some]

theorem run_sweep (h : s.isDown = false) (now : Rat) (keys : List String) (n : Nat) :
    ∃ cleared : List String, cleared.Nodup ∧
    (∀ k, k ∈ cleared ↔ k ∈ keys ∧ isCleared now (s.entries.get? k)) ∧
    ((sweep now keys n).run now s).1.1 = .ok (.nat (n + cleared.length)) ∧
    ∀ k, ((sweep now keys n).run now s).2.entries.get? k =
      if k ∈ keys then uncleared now (s.entries.get? k) else s.entries.get? k := by
  induction keys generalizing s n with
  | nil => exact ⟨[], nodup_nil, by simp, rfl, by simp [sweep, Program.run]⟩
  | cons key rest ih =>
    obtain ⟨s', hrun, hup, hget⟩ := run_sweep_cons h now key rest n
    obtain ⟨cleared, hnodup, hmem, hanswer, hrest⟩ := ih hup (n + (isCleared now (s.entries.get? key)).toNat)
    have hclear (k : String) : isCleared now (s'.entries.get? k) = (k ≠ key && isCleared now (s.entries.get? k)) := by
      by_cases hk : k = key <;> simp [hget, hk, isCleared_uncleared]
    refine ⟨if isCleared now (s.entries.get? key) then key :: cleared else cleared, ?_, fun k => ?_, ?_, fun k => ?_⟩
    · split
      next => exact nodup_cons.mpr ⟨by simp [hmem, hclear], hnodup⟩
      next => exact hnodup
    · by_cases hk : k = key
      · subst hk
        cases hc : isCleared now (s.entries.get? k) <;> simp [hmem, hclear]
      · split <;> simp [hmem, hclear, hk]
    · rw [hrun, hanswer]
      cases isCleared now (s.entries.get? key) <;> simp [Nat.add_assoc, Nat.add_comm 1]
    · rw [hrun, hrest, hget]
      by_cases hk : k = key <;> by_cases hm : k ∈ rest <;> simp [hk, hm, uncleared_uncleared]

theorem startsWith_keyOf (id : String) : Text.startsWith (keyOf "") (keyOf id) := by
  simp [Text.startsWith, Chars.startsWith, Chars.afterPrefix, keyOf]

theorem run_cleanUp (h : s.isDown = false) (now : Rat) : ∃ cleared : List String, cleared.Nodup ∧
    (∀ k, k ∈ cleared ↔ Text.startsWith (keyOf "") k ∧ isCleared now (s.entries.get? k)) ∧
    ((cleanUp now).run now s).1.1 = .ok (.nat cleared.length) ∧
    ∀ k, ((cleanUp now).run now s).2.entries.get? k =
      if Text.startsWith (keyOf "") k then uncleared now (s.entries.get? k) else s.entries.get? k := by
  have hkeys (k : String) : s.entries.get? k = none ∨ k ∈ s.keys := by
    cases hk : s.entries.get? k with
    | none => exact .inl rfl
    | some e => exact .inr (mem_map.mpr ⟨_, Keyed.mem_of_get? hk, rfl⟩)
  obtain ⟨cleared, hnodup, hmem, hanswer, hget⟩ :=
    run_sweep h now (s.keys.filter fun key => Text.startsWith (keyOf "") key) 0
  simp only [cleanUp, Program.run, h, Bool.false_eq_true, if_false]
  refine ⟨cleared, hnodup, fun k => ?_, by simpa using hanswer, fun k => ?_⟩
  · rw [hmem, mem_filter]
    rcases hkeys k with hk | hk <;> simp [hk, isCleared, live]
  · rw [hget]
    rcases hkeys k with hk | hk <;> simp [hk, uncleared, live]

theorem heldIn_cleanUp (h : s.isDown = false) :
    heldIn (Call.cleanUp.ask now s).2 id = uncleared now (heldIn s id) := by
  obtain ⟨_, -, -, -, hget⟩ := run_cleanUp h now
  exact (hget (keyOf id)).trans (if_pos (startsWith_keyOf id))

theorem heldIn_ask (h : s.isDown = false) (call : Call) :
    heldIn (call.ask now s).2 id = call.effect now id (heldIn s id) := by
  cases call with
  | create other user data =>
    simp only [Call.ask, Call.program, create, Program.run_step (save ..), step_save now other h]
    exact heldIn_putAt s now other id now _
  | lookUp other => exact (Request.lookUp.ask_eq h now other).2 id
  | update other new => exact ((Request.update new).ask_eq h now other).2 id
  | delete v =>
    simp only [Call.ask, Call.program, delete, Program.run, delete_of_up h, heldIn_erase, Call.effect, keyOf_inj,
      @eq_comm _ id]
  | cleanUp => exact heldIn_cleanUp h

end Effect

variable (calls : List (Rat × Call))

theorem heldIn_deskAfter (id : String) :
    heldIn (deskAfter calls).store id = calls.foldl (fun held e => e.2.effect e.1 id held) none := by
  induction calls using List.reverseRecOn with
  | nil => rfl
  | append_singleton calls e ih =>
    rw [deskAfter_append, foldl_append, ← ih]
    exact heldIn_ask (isUp_deskAfter calls) e.2

def givenAfter (calls : List (Rat × Call)) (now : Rat) (id : String) : Option Value :=
  found? ((Call.lookUp id).ask now (deskAfter calls).store).1

theorem givenAfter_eq_result (now : Rat) (id : String) :
    givenAfter calls now id = Request.lookUp.result now now id (heldIn (deskAfter calls).store id) := by
  have hanswer := (Request.lookUp.ask_eq (isUp_deskAfter calls) now id).1
  rw [givenAfter, show Call.lookUp id = Request.lookUp.call id from rfl, hanswer]
  cases hr : Request.lookUp.result now now id (heldIn (deskAfter calls).store id) with
  | none => rfl
  | some data =>
    obtain ⟨-, e, -, hdata⟩ := Request.result_eq_some hr
    exact Request.found?_of_use hdata

theorem givenAfter_filter (now : Rat) (id : String) :
    givenAfter calls now id = givenAfter (calls.filter fun e => e.2.concerns id) now id := by
  rw [givenAfter_eq_result, givenAfter_eq_result, heldIn_deskAfter, heldIn_deskAfter, foldl_filter]
  congr 2
  funext held e
  cases hc : e.2.concerns id with
  | true => rw [if_pos rfl]
  | false => rw [if_neg Bool.false_ne_true, Call.effect_of_not_concerns hc]

variable {calls : List (Rat × Call)}

theorem heldIn_of_deleted {before after : List (Rat × Call)}
    {time : Rat} {v : Value} (hcalls : calls = before ++ (time, .delete v) :: after) (hv : v.display = id)
    (hafter : ∀ e ∈ after, e.2.starts id = false) : heldIn (deskAfter calls).store id = none := by
  have hstay : after.foldl (fun held e => e.2.effect e.1 id held) none = none := by
    clear hcalls
    induction after with
    | nil => rfl
    | cons e rest ih =>
      rw [foldl_cons, Call.effect_none (hafter e (by simp))]
      exact ih fun x hx => hafter x (by simp [hx])
  rw [heldIn_deskAfter, hcalls, foldl_append, foldl_cons]
  simpa [Call.effect, hv] using hstay

def overwrite (data new : Value) : Value := ((data.mergeInto new).toOption.map asSigned).getD data

def Turn.update? (id : String) (t : Turn) : Option Value :=
  match t.call, t.answer with
  | .update other new, .ok (.bool true) => if other = id then some new else none
  | _, _ => none

def contentOf (id : String) (given : Value) (since : List Turn) : Value :=
  (since.filterMap (Turn.update? id)).foldl overwrite given

structure Told (log : List Turn) (id : String) (start : Rat) (user given : Value) (since : List Turn) : Prop where
  log_eq : ∃ before answer, log = before ++ ⟨start, .create id user given, answer⟩ :: since
  last : ∀ t ∈ since, t.call.starts id = false

structure Span where
  created : Rat
  used : Rat

/-- What a turn makes of the span of a session: only a start or a use that succeeds counts. -/
def Turn.extend (id : String) (span : Option Span) (t : Turn) : Option Span :=
  match t.call, t.answer with
  | .create other _ _, .ok _ => if other = id then some ⟨t.time, t.time⟩ else span
  | .lookUp other, answer =>
    if other = id ∧ (found? answer).isSome then span.map fun m => { m with used := t.time } else span
  | .update other _, .ok (.bool true) =>
    if other = id then span.map fun m => { m with used := t.time } else span
  | _, _ => span

def spanOf (id : String) (log : List Turn) : Option Span := log.foldl (Turn.extend id) none

def Written (log : List Turn) (id : String) (e : Stored Rat Record) : Prop :=
  ∃ start user given since used, Told log id start user given since ∧ spanOf id log = some ⟨start, used⟩ ∧
    e = signedAt used used (.object (fields start user (contentOf id given since) used))

section Content

variable {log since : List Turn} {id : String} {start now used : Rat} {user given data content : Value} {t : Turn}
  {e : Stored Rat Record} {request : Request}

theorem Told.append (h : Told log id start user given since) (ht : t.call.starts id = false) :
    Told (log ++ [t]) id start user given (since ++ [t]) := by
  obtain ⟨before, answer, hlog⟩ := h.log_eq
  refine ⟨⟨before, answer, by simp [hlog]⟩, ?_⟩
  intro x hx
  rcases mem_append.mp hx with hx | hx
  · exact h.last x hx
  · rw [mem_singleton.mp hx]
    exact ht

theorem contentOf_append (id : String) (given : Value) (since : List Turn) (t : Turn) :
    contentOf id given (since ++ [t]) =
      ((t.update? id).map (overwrite (contentOf id given since))).getD (contentOf id given since) := by
  unfold contentOf
  cases ht : t.update? id <;> simp [filterMap_append, ht]

theorem spanOf_append (id : String) (log : List Turn) (t : Turn) :
    spanOf id (log ++ [t]) = t.extend id (spanOf id log) := by
  simp [spanOf]

theorem stampUse_fields (now start : Rat) (user data : Value) (used : Rat) :
    stampUse now (.object (fields start user data used)) = .ok (.object (fields start user data now)) := by
  simp [stampUse, assign, fields, Entries.put]

theorem updated_fields (now start : Rat) (user data : Value) (used : Rat) (second : Int) (new : Value) :
    updated now (.signed (.object (fields start user data used)) second) new =
      (data.mergeInto new).map fun merged => .object (fields start user (asSigned merged) now) := by
  have hmember : (object (fields start user data used)).member "data" = .ok data := by
    simp [member, fields, lookup_cons]
  have hassign (v : Value) : (object (fields start user data used)).assign "data" v =
      .ok (.object (fields start user v used)) := by
    simp [assign, fields, Entries.put]
  simp only [updated, Record.data, ok_bind, hmember]
  cases data.mergeInto new with
  | error f => rfl
  | ok merged => simp [hassign, stampUse_fields, Except.map]

def Request.renew (old : Value) : Request → Value
  | .lookUp => old
  | .update new => overwrite old new

theorem Request.change_fields {second : Int}
    (h : request.change now (.signed (.object (fields start user content used)) second) = .ok data) :
    data = .object (fields start user (request.renew content) now) := by
  cases request with
  | lookUp =>
    simp only [change, Record.freshData] at h
    split_ifs at h
    · cases h
    · cases h
    · exact Except.ok.inj (h.symm.trans (stampUse_fields ..))
  | update new =>
    simp only [change, updated_fields] at h
    cases hm : content.mergeInto new with
    | error f => simp [hm, Except.map] at h
    | ok merged => simpa [hm, Except.map, Request.renew, overwrite, Except.toOption, eq_comm] using h

theorem Written.quiet (h : Written log id e) (hstarts : t.call.starts id = false) (hupdate : t.update? id = none)
    (hspan : ∀ span, t.extend id span = span) : Written (log ++ [t]) id e := by
  obtain ⟨start, user, given, since, used, htold, hused, hvalue⟩ := h
  refine ⟨start, user, given, since ++ [t], used, htold.append hstarts, by rw [spanOf_append, hspan, hused], ?_⟩
  rw [contentOf_append, hupdate]
  exact hvalue

theorem Written.rewrite (h : Written log id e) (hdata : request.change now e.value = .ok data) :
    Written (log ++ [⟨now, request.call id, .ok (request.answer data)⟩]) id (signedAt now now data) := by
  obtain ⟨start, user, given, since, used, htold, hused, rfl⟩ := h
  have hfound : found? (.ok data) = some data := by
    rw [Request.change_fields hdata]
    rfl
  refine ⟨start, user, given, since ++ [_], now, htold.append ?_, ?_, ?_⟩
  · cases request <;> rfl
  · cases request <;> simp [spanOf_append, hused, Turn.extend, Request.call, Request.answer, hfound]
  · rw [Request.change_fields hdata, contentOf_append]
    cases request <;> simp [Turn.update?, Request.call, Request.answer, Request.renew]

variable {d : Desk}

theorem written_request (hup : d.store.isDown = false) (h : ∀ e, heldIn d.store id = some e → Written d.log id e)
    (request : Request) (other : String) (he : heldIn (d.next now (request.call other)).store id = some e) :
    Written (d.next now (request.call other)).log id e := by
  obtain ⟨hanswer, heffect⟩ := request.ask_eq hup now other
  have hstarts : (request.call other).starts id = false := by cases request <;> rfl
  simp only [Desk.next, hanswer, heffect id] at he ⊢
  by_cases ho : other = id
  · subst ho
    rw [if_pos rfl, Request.effect] at he
    cases hr : request.result now now other (heldIn d.store other) with
    | none =>
      rw [hr] at he
      have hold : heldIn d.store other = some e := by
        simp only [Request.readOf, map_none, none_or] at he
        split_ifs at he
        · exact he
        · exact (filter_eq_some_iff.mp he).1
      refine (h e hold).quiet hstarts ?_ fun span => ?_ <;>
        cases request <;> simp [Turn.update?, Turn.extend, Request.call, Request.miss, found?]
    | some data =>
      obtain ⟨-, old, hlive, hdata⟩ := Request.result_eq_some hr
      rw [hr, map_some, some_or, Option.some.injEq] at he
      subst he
      exact (h old (filter_eq_some_iff.mp hlive).1).rewrite hdata
  · rw [if_neg ho] at he
    refine (h e he).quiet hstarts ?_ fun span => ?_
    · cases request <;> simp [Turn.update?, Request.call]
      split <;> simp_all
    · cases request <;> simp [Turn.extend, Request.call, ho]
      split <;> simp_all

theorem written_next (hup : d.store.isDown = false) (h : ∀ e, heldIn d.store id = some e → Written d.log id e)
    (call : Call) (he : heldIn (d.next now call).store id = some e) : Written (d.next now call).log id e := by
  have heff : call.effect now id (heldIn d.store id) = some e := (heldIn_ask hup call).symm.trans he
  cases call with
  | create other user data =>
    by_cases ho : other = id
    · subst ho
      rw [Call.effect, if_pos rfl, Option.some.injEq] at heff
      have hanswer : ((Call.create other user data).ask now d.store).1 = .ok (.text other) := by
        simp only [Call.ask, Call.program, create, Program.run_step (save ..), step_save now other hup]
        rfl
      refine ⟨now, user, data, [], now, ⟨⟨d.log, _, rfl⟩, by simp⟩, ?_, heff.symm⟩
      simp [Desk.next, spanOf_append, Turn.extend, hanswer]
    · rw [Call.effect, if_neg ho] at heff
      refine (h e heff).quiet (by simp [Call.starts, ho]) rfl fun span => ?_
      simp only [Turn.extend]
      split <;> simp_all
  | lookUp other => exact written_request hup h .lookUp other he
  | update other new => exact written_request hup h (.update new) other he
  | delete v =>
    rw [Call.effect] at heff
    split at heff
    next => cases heff
    next => exact (h e heff).quiet rfl rfl fun _ => rfl
  | cleanUp => exact (h e (filter_eq_some_iff.mp (filter_eq_some_iff.mp heff).1).1).quiet rfl rfl fun _ => rfl

theorem written_deskAfter (calls : List (Rat × Call)) (id : String)
    (h : heldIn (deskAfter calls).store id = some e) : Written (deskAfter calls).log id e := by
  induction calls using List.reverseRecOn generalizing e with
  | nil => cases h
  | append_singleton calls c ih =>
    rw [deskAfter_append] at h ⊢
    exact written_next (isUp_deskAfter calls) (fun _ => ih) c.2 h

end Content

theorem overwrite_object (old new : Entries) :
    overwrite (.object old) (.object new) = .object (ofList (old ++ new)) := by
  rw [overwrite, mergeInto_object]
  rfl

theorem foldl_overwrite {first : Entries} (h : first.Distinct) (updates : List Entries) :
    (updates.map object).foldl overwrite (.object first) = .object (updates.foldl merge first) := by
  induction updates generalizing first with
  | nil => rfl
  | cons new rest ih =>
    have hmerge : ofList (first ++ new) = first.merge new := by rw [ofList_append, ofList_of_distinct h]
    rw [map_cons, foldl_cons, overwrite_object, hmerge, ih (h.merge new), foldl_cons]

theorem given_fields {now : Rat} {data : Value} (h : givenAfter calls now id = some data) :
    ∃ start user given since, Told (deskAfter calls).log id start user given since ∧
      data = .object (fields start user (contentOf id given since) now) := by
  rw [givenAfter_eq_result] at h
  obtain ⟨-, e, hlive, hdata⟩ := Request.result_eq_some h
  obtain ⟨start, user, given, since, used, htold, -, rfl⟩ :=
    written_deskAfter calls id (filter_eq_some_iff.mp hlive).1
  exact ⟨start, user, given, since, htold, Request.change_fields hdata⟩

/-- Whatever calls are made at whatever times: a look-up gives a session with the user, the times
and the data of its start, overwritten in turn by the updates that succeeded since. Calls about
other sessions change nothing of this, and a deleted session is not given again, unless a new one
starts under its id. -/
theorem given_as_written (calls : List (Rat × Call)) (id : String) :
    (∀ now data, givenAfter calls now id = some data →
      ∃ start user given since, Told (deskAfter calls).log id start user given since ∧
        data = .object (fields start user (contentOf id given since) now)) ∧
    (∀ (first : Entries) (updates : List Entries), first.Distinct →
      (∀ new ∈ updates, new.Distinct) →
      ∃ content, (updates.map Value.object).foldl overwrite (.object first) = .object content ∧
        ∀ key, content.lookup key = (updates.reverse ++ [first]).findSome? (·.lookup key)) ∧
    (∀ now, givenAfter calls now id = givenAfter (calls.filter fun e => e.2.concerns id) now id) ∧
    (∀ before time v after, calls = before ++ (time, .delete v) :: after → v.display = id →
      (∀ e ∈ after, e.2.starts id = false) → ∀ now, givenAfter calls now id = none) := by
  refine ⟨?_, ?_, ?_, ?_⟩
  · intro now data h
    exact given_fields h
  · intro first updates hfirst hupdates
    exact ⟨_, foldl_overwrite hfirst updates, Entries.lookup_foldl_merge hupdates⟩
  · intro now
    exact givenAfter_filter calls now id
  · intro before time v after hcalls hv hafter now
    rw [givenAfter_eq_result, heldIn_of_deleted hcalls hv hafter, Request.result]
    split <;> rfl

theorem given_as_written_ada : let calls : List (Rat × Call) := [
      (0, .create "id1" (.text "ada") (.object [("theme", .text "dark")])),
      (5, .create "id2" (.text "bob") (.object [])),
      (10, .update "id1" (.object [("page", .int 3), ("theme", .text "light")])),
      (15, .delete (.text "id2"))]
    (∃ data, givenAfter calls 20 "id1" = some data ∧
      data.display = "\x7b'user_id': 'ada', 'data': \x7b'theme': 'light', 'page': 3\x7d, " ++
        "'created_at': '1970-01-01T00:00:00', 'expires_at': '1970-01-01T01:00:00', " ++
        "'last_activity': '1970-01-01T00:00:20'\x7d" ∧
      ∃ start user given since, Told (deskAfter calls).log "id1" start user given since ∧
        data = .object (fields start user (contentOf "id1" given since) 20)) ∧
    givenAfter (calls ++ [(30, .delete (.text "id1")), (40, .update "id1" (.object []))]) 50 "id1" = none := by
  intro calls
  have hshown : (givenAfter calls 20 "id1").map Value.display =
      some ("\x7b'user_id': 'ada', 'data': \x7b'theme': 'light', 'page': 3\x7d, " ++
        "'created_at': '1970-01-01T00:00:00', 'expires_at': '1970-01-01T01:00:00', " ++
        "'last_activity': '1970-01-01T00:00:20'\x7d") := by
    decide +kernel
  obtain ⟨data, hdata, hdisplay⟩ := Option.map_eq_some_iff.mp hshown
  refine ⟨⟨data, hdata, hdisplay, (given_as_written calls "id1").1 20 data hdata⟩, ?_⟩
  exact (given_as_written _ "id1").2.2.2 calls 30 (.text "id1") [(40, .update "id1" (.object []))] rfl rfl
    (by decide) 50

end CodeAudit.Session

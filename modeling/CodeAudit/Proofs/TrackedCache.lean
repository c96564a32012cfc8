import CodeAudit.Proofs.JsonLine
import CodeAudit.Proofs.SmartCache

/-! Runs of a cache of JSON texts. With a monitor it gives what was kept under a key until it is
replaced, forgotten or over. -/

namespace CodeAudit

open Bool Json Store Option

namespace Cache.Tracked

open Time

theorem foldl_of_log {σ ε : Type} {step : σ → ε → σ} {P : List ε → σ → Prop} {s : σ} (start : P [] s)
    (next : ∀ log s e, P log s → P (e :: log) (step s e)) (es : List ε) : P es.reverse (es.foldl step s) := by
  induction es using List.reverseRecOn with
  | nil => exact start
  | append_singleton es e ih =>
    rw [List.reverse_append, List.foldl_append]
    exact next _ _ e ih

variable {T : Type}

def valueOf (text : String) : Value := (Json.parse text).toOption.getD .null

def asRead (v : Value) : Value := valueOf (write {} v)

theorem asRead_of_isDocument {v : Value} (h : isDocument maxDepth v) : asRead v = v := by
  rw [asRead, valueOf, parse_write {} rfl h]
  rfl

inductive Call (T : Type) where
  | get (key : String)
  | set (key : String) (v : Value) (lifetime : Option T)
  | delete (key : String)
  | clear

variable [Seconds T] (c : Tracked T)

def ask (now : T) : Call T → Value × Tracked T
  | .get key => ((c.fetch now key).1, (c.fetch now key).2.2)
  | .set key v lifetime => (.bool (c.keep now key v lifetime).1, (c.keep now key v lifetime).2.2)
  | .delete key => (.bool (c.forget now key).1, (c.forget now key).2)
  | .clear => (.bool c.clear.1, c.clear.2)

def after (calls : List (T × Call T)) : Tracked T := calls.foldl (fun c e => (c.ask e.1 e.2).2) c

/-- What a log, the latest call first, says of a key: the value that was last set and can be
written, unless the key was forgotten since or seen to be over. -/
def standing (key : String) : List (T × Call T) → Option (Stored T Value)
  | [] => none
  | (now, .get other) :: earlier =>
    if key == other then live now (standing key earlier) else standing key earlier
  | (now, .set other v lifetime) :: earlier =>
    if key == other && isWritable maxDepth v then some ⟨v, lifetime.map (now + ·)⟩ else standing key earlier
  | (_, .delete other) :: earlier => if key == other then none else standing key earlier
  | (_, .clear) :: _ => none

def given (monitored : Bool) (held : Option (Stored T Value)) : Value :=
  if monitored then (held.map fun e => asRead e.value).getD .null else .null

def answer (monitored : Bool) (log : List (T × Call T)) (now : T) : Call T → Value
  | .get key => given monitored (live now (standing key log))
  | .set _ v _ => .bool (monitored && isWritable maxDepth v)
  | .delete key => .bool (live now (standing key log)).isSome
  | .clear => .bool true

def written (e : Stored T Value) : Stored T String := ⟨write {} e.value, e.expires⟩

theorem live_written (now : T) (held : Option (Stored T Value)) :
    live now (held.map written) = (live now held).map written := by
  cases held with
  | none => rfl
  | some e =>
    have hover : (written e).isOver now = e.isOver now := rfl
    cases h : e.isOver now <;> simp [live, filter_some, hover, h]

structure Shows (c : Tracked T) (monitored : Bool) (held : String → Option (Stored T Value)) : Prop where
  up : c.store.isDown = false
  monitor : c.monitored = monitored
  entry : ∀ key, c.store.entries.get? key = (held key).map written

section Step

variable {monitored : Bool} {held : String → Option (Stored T Value)} {c : Tracked T}

variable (h : Shows c monitored held) (now : T) (key : String)

include h

theorem Shows.find? : c.store.find? now key = (live now (held key)).map fun e => write {} e.value := by
  rw [find?_eq, h.entry, live_written, map_map]
  rfl

theorem Shows.fetch : (c.fetch now key).1 = given monitored (live now (held key)) ∧
    Shows (c.fetch now key).2.2 monitored fun k => if k == key then live now (held k) else held k := by
  have hnext : Shows { c with store := c.store.touch now key } monitored
      fun k => if k == key then live now (held k) else held k := by
    refine ⟨isDown_touch.trans h.up, h.monitor, fun k => ?_⟩
    rw [get?_touch, h.entry]
    split
    · exact live_written now _
    · rfl
  obtain ⟨store, isMonitored⟩ := c
  obtain rfl : isMonitored = monitored := h.monitor
  simp only [Tracked.fetch, get_of_up h.up, h.find?, given]
  cases isMonitored with
  | false => exact ⟨rfl, hnext⟩
  | true =>
    cases live now (held key) with
    | none => exact ⟨rfl, hnext⟩
    | some e =>
      by_cases htext : write {} e.value = ""
      · simp only [map_some, asRead, htext]
        exact ⟨rfl, hnext⟩
      · simpa [filter_some, htext, asRead, valueOf] using hnext

theorem Shows.keep (v : Value) (lifetime : Option T) :
    (c.keep now key v lifetime).1 = (monitored && isWritable maxDepth v) ∧
      Shows (c.keep now key v lifetime).2.2 monitored fun k =>
        if k == key && isWritable maxDepth v then some ⟨v, lifetime.map (now + ·)⟩ else held k := by
  obtain ⟨store, isMonitored⟩ := c
  obtain rfl : isMonitored = monitored := h.monitor
  simp only [Tracked.keep, put_of_up h.up]
  cases isWritable maxDepth v with
  | false => simpa using h
  | true =>
    have hentry (k : String) : (store.entries.put key ⟨write {} v, lifetime.map (now + ·)⟩).get? k =
        (if k == key && true then some ⟨v, lifetime.map (now + ·)⟩ else held k).map written := by
      rw [Keyed.get?_put, h.entry, Bool.and_true]
      split <;> rfl
    cases isMonitored <;> exact ⟨rfl, h.up, rfl, hentry⟩

theorem Shows.forget : (c.forget now key).1 = (live now (held key)).isSome ∧
    Shows (c.forget now key).2 monitored fun k => if k == key then none else held k := by
  simp only [Tracked.forget, delete_of_up h.up, h.find?, isSome_map, Except.toOption]
  refine ⟨rfl, h.up, h.monitor, fun k => ?_⟩
  rw [Keyed.get?_erase, h.entry]
  split <;> rfl

omit [Seconds T] in
theorem Shows.clear : c.clear.1 ∧ Shows c.clear.2 monitored fun _ => none := by
  have hnext : c.clear = (true, { c with store := { c.store with entries := [] } }) := by
    simp [Tracked.clear, Store.clear, h.up, Except.isOk, Except.toBool]
  rw [hnext]
  exact ⟨rfl, h.up, h.monitor, fun _ => rfl⟩

omit h

theorem Shows.ask {log : List (T × Call T)} (h : Shows c monitored (standing · log)) (call : Call T) :
    (c.ask now call).1 = answer monitored log now call ∧
      Shows (c.ask now call).2 monitored (standing · ((now, call) :: log)) := by
  cases call with
  | get key => exact h.fetch now key
  | set key v lifetime => exact (h.keep now key v lifetime).imp_left (congrArg Value.bool)
  | delete key => exact (h.forget now key).imp_left (congrArg Value.bool)
  | clear => exact h.clear.imp_left (congrArg Value.bool)

end Step

def opened (T : Type) (monitored : Bool) : Tracked T := { monitored }

theorem holds_after (monitored : Bool) (calls : List (T × Call T)) :
    Shows ((opened T monitored).after calls) monitored (standing · calls.reverse) := by
  apply foldl_of_log (P := fun log c => Shows c monitored (standing · log))
  · exact ⟨rfl, rfl, fun _ => rfl⟩
  · intro log c e h
    exact (h.ask e.1 e.2).2

theorem answer_after (monitored : Bool) (calls : List (T × Call T)) (now : T) (call : Call T) :
    (((opened T monitored).after calls).ask now call).1 = answer monitored calls.reverse now call :=
  ((holds_after monitored calls).ask now call).1

/-- Every call of every run is answered from the calls before it, and the answers are those of a map
of the values that can be written if and only if there is a monitor. -/
theorem answers_as_map_iff_monitored (monitored : Bool) : (∀ (calls : List (T × Call T)) now call,
      (((opened T monitored).after calls).ask now call).1 =
        answer monitored calls.reverse now call) ∧
    ((∀ (calls : List (T × Call T)) now call,
      (((opened T monitored).after calls).ask now call).1 = answer true calls.reverse now call) ↔
        monitored = true) ∧
    ∀ v, Json.isDocument Json.maxDepth v = true → Json.isWritable Json.maxDepth v = true ∧
      asRead v = v := by
  refine ⟨answer_after monitored, ⟨?_, ?_⟩, ?_⟩
  · intro h
    have hset := h [] (Seconds.ofNum (.int 0)) (.set "k" (.int 1) none)
    rw [answer_after] at hset
    cases monitored with
    | true => rfl
    | false =>
      have hw : Json.isWritable Json.maxDepth (.int 1) = true := by decide
      simp [answer, hw] at hset
  · rintro rfl
    exact answer_after true
  · intro v hv
    exact ⟨Json.isWritable_of_isDocument hv, asRead_of_isDocument hv⟩

theorem answers_as_map_iff_monitored_list :
    Json.isDocument Json.maxDepth (.list [.null, .text "a"]) = true ∧
    Json.isWritable Json.maxDepth (.list [.null, .text "a"]) = true ∧
    asRead (.list [.null, .text "a"]) = .list [.null, .text "a"] := by
  have h : Json.isDocument Json.maxDepth (.list [.null, .text "a"]) = true := by decide
  exact ⟨h, (answers_as_map_iff_monitored (T := Rat) true).2.2 _ h⟩

/-- Without its monitor the cache stores a value, and neither says so nor gives it out. -/
theorem unmonitored_value_withheld : Json.isWritable Json.maxDepth (.int 1) = true ∧
    ((opened Rat false).ask 0 (.set "k" (.int 1) none)).1 = .bool false ∧
    (((opened Rat false).after [(0, .set "k" (.int 1) none)]).ask 1 (.get "k")).1 = .null ∧
    ((opened Rat false).after [(0, .set "k" (.int 1) none)]).store.find? 1 "k" = some "1" := by
  refine ⟨by decide, ?_, ?_, ?_⟩
  · exact answer_after false [] 0 _
  · exact answer_after false [(0, .set "k" (.int 1) none)] 1 _
  · exact (holds_after false [((0 : Rat), .set "k" (.int 1) none)]).find? 1 "k"

/-! The keys of results of calls. A key holds the texts of a call with colons between them, so calls
share a key exactly if their texts are cut into the same pieces at all colons. -/

open List

structure Invocation where
  args : List Value
  named : Entries := []

namespace Invocation

variable (name : String) (i : Invocation)

def key : String := callKey name i.args i.named

def texts : List String :=
  i.args.map Value.display ++
    (i.named.mergeSort fun a b => decide (a.1 ≤ b.1)).flatMap fun e => [e.1, e.2.display]

def pieces : List Chars := i.texts.flatMap fun t => Chars.splitOn ':' t.toList

theorem splitOn_key : Chars.splitOn ':' (i.key name).toList = Chars.splitOn ':' name.toList ++ i.pieces := by
  simp [key, callKey, Text.join, String.toList_intercalate, Chars.splitOn_intercalate, Chars.splitOn_append, pieces,
    texts, flatMap_map, flatMap_assoc]

theorem key_eq_iff (i j : Invocation) : i.key name = j.key name ↔ i.pieces = j.pieces := by
  rw [← String.toList_inj, ← (Chars.splitOn_injective ':').eq_iff, splitOn_key, splitOn_key,
    append_cancel_left_eq]

theorem pieces_of_noColon {i : Invocation} (h : ∀ t ∈ i.texts, ':' ∉ t.toList) :
    i.pieces = i.texts.map String.toList := by
  rw [pieces, map_eq_flatMap]
  exact flatMap_congr fun t ht => Chars.splitOn_of_notMem (h t ht)

end Invocation

variable {T : Type} [Seconds T]

theorem call_eq (c : Tracked T) (now : T) (key : String) (result : Value) (lifetime : Option T) :
    (c.call now key result lifetime).1 =
      (if (c.fetch now key).1.isNull then result else (c.fetch now key).1) ∧ (c.call now key result lifetime).2.2 =
      if (c.fetch now key).1.isNull then ((c.fetch now key).2.2.keep now key result lifetime).2.2
      else (c.fetch now key).2.2 := by
  rw [call]
  generalize c.fetch now key = r
  obtain ⟨v, notes, c⟩ := r
  cases v <;> simp [Value.isNull]

section Memory

variable (monitored : Bool) (f : Invocation → Value) (lifetime : Option T)

/-- What a log of calls to a function, the latest first, leaves for calls with some pieces: a result
that was given stays, any other is replaced if the new one can be written. -/
def remembered (p : List Chars) : List (T × Invocation) → Option (Stored T Value)
  | [] => none
  | (now, i) :: earlier =>
    if i.pieces = p then
      if (given monitored (Store.live now (remembered p earlier))).isNull && Json.isWritable Json.maxDepth (f i) then
        some ⟨f i, lifetime.map (now + ·)⟩
      else Store.live now (remembered p earlier)
    else remembered p earlier

def recalled (log : List (T × Invocation)) (now : T) (i : Invocation) : Value :=
  let v := given monitored (Store.live now (remembered monitored f lifetime i.pieces log))
  if v.isNull then f i else v

def consult (c : Tracked T) (name : String) (now : T) (i : Invocation) : Value × Tracked T :=
  ((c.call now (i.key name) (f i) lifetime).1, (c.call now (i.key name) (f i) lifetime).2.2)

def afterConsults (c : Tracked T) (name : String) (calls : List (T × Invocation)) : Tracked T :=
  calls.foldl (fun c e => (c.consult f lifetime name e.1 e.2).2) c

/-- What the entries hold under the keys of a function's calls is what the log leaves. -/
def Remembers (name : String) (log : List (T × Invocation)) (c : Tracked T) : Prop :=
  ∃ held, Shows c monitored held ∧
    ∀ i : Invocation, held (i.key name) = remembered monitored f lifetime i.pieces log

variable {monitored f lifetime} {name : String} {log : List (T × Invocation)} {c : Tracked T}

variable (h : Remembers monitored f lifetime name log c) (now : T) (i : Invocation)

include h

theorem Remembers.fetch_eq :
    (c.fetch now (i.key name)).1 = given monitored (live now (remembered monitored f lifetime i.pieces log)) := by
  obtain ⟨held, hc, hheld⟩ := h
  rw [(hc.fetch now _).1, hheld]

theorem Remembers.answer_eq : (c.consult f lifetime name now i).1 = recalled monitored f lifetime log now i := by
  rw [consult, (call_eq c now _ _ _).1, h.fetch_eq]
  rfl

theorem Remembers.next :
    Remembers monitored f lifetime name ((now, i) :: log) (c.consult f lifetime name now i).2 := by
  have hkey (j : Invocation) : (j.key name == i.key name) = decide (i.pieces = j.pieces) := by
    rw [Bool.eq_iff_iff, beq_iff_eq, decide_eq_true_iff, Invocation.key_eq_iff]
    exact eq_comm
  rw [consult, (call_eq c now _ _ _).2, h.fetch_eq]
  obtain ⟨held, hc, hheld⟩ := h
  have hread := (hc.fetch now (i.key name)).2
  split_ifs with hnull
  · refine ⟨_, (hread.keep now (i.key name) (f i) lifetime).2, fun j => ?_⟩
    by_cases hp : i.pieces = j.pieces
    · simp [hkey, hheld, remembered, ← hp, hnull]
    · simp [hkey, hheld, remembered, hp]
  · refine ⟨_, hread, fun j => ?_⟩
    by_cases hp : i.pieces = j.pieces
    · simp [hkey, hheld, remembered, ← hp, hnull]
    · simp [hkey, hheld, remembered, hp]

omit h

theorem remembers_after (name : String) (calls : List (T × Invocation)) :
    Remembers monitored f lifetime name calls.reverse ((opened T monitored).afterConsults f lifetime name calls) := by
  apply foldl_of_log
  · exact ⟨fun _ => none, ⟨rfl, rfl, fun _ => rfl⟩, fun _ => rfl⟩
  · intro log c e h
    exact h.next e.1 e.2

theorem exists_of_remembered {p : List Chars} {e : Stored T Value}
    (h : remembered monitored f lifetime p log = some e) : ∃ i : Invocation, i.pieces = p ∧ e.value = f i := by
  induction log with
  | nil => simp [remembered] at h
  | cons entry earlier ih =>
    rw [remembered] at h
    split_ifs at h with hp hnew
    · cases h
      exact ⟨entry.2, hp, rfl⟩
    · exact ih (Option.filter_eq_some_iff.mp h).1
    · exact ih h

end Memory

/-- Calls to a function share a key exactly if their texts have the same pieces. So a function of
documents gives its own results in all runs, behind a cache that forgets nothing, if and only if
calls with the same pieces have the same result. -/
theorem shared_iff_same_pieces (name : String) :
    (∀ i j : Invocation, i.key name = j.key name ↔ i.pieces = j.pieces) ∧
    (∀ i : Invocation, (∀ t ∈ i.texts, ':' ∉ t.toList) → i.pieces = i.texts.map String.toList) ∧
    (∀ monitored f (lifetime : Option T) calls now i,
      (((opened T monitored).afterConsults f lifetime name calls).consult f lifetime name now i).1 =
        recalled monitored f lifetime calls.reverse now i) ∧
    ∀ f : Invocation → Value,
      (∀ i, Json.isDocument Json.maxDepth (f i) = true ∧ (f i).isNull = false) →
      ((∀ calls (now : T) i,
        (((opened T true).afterConsults f none name calls).consult f none name now i).1 = f i) ↔
        ∀ i j : Invocation, i.pieces = j.pieces → f i = f j) := by
  refine ⟨Invocation.key_eq_iff name, fun _ => Invocation.pieces_of_noColon, ?_, ?_⟩
  · intro monitored f lifetime calls now i
    exact (remembers_after name calls).answer_eq now i
  · intro f hf
    have hread : ∀ i, asRead (f i) = f i := fun i => asRead_of_isDocument (hf i).1
    constructor
    · intro h i j hp
      have hj : Json.isWritable Json.maxDepth (f j) = true := Json.isWritable_of_isDocument (hf j).1
      let now : T := Seconds.ofNum (.int 0)
      have hkept : remembered true f none i.pieces [(now, j)] = some ⟨f j, none⟩ := by
        rw [remembered, if_pos hp.symm, hj]
        rfl
      have hgiven : given true (Store.live now (some ⟨f j, none⟩)) = f j := hread j
      have hi := h [(now, j)] now i
      rw [(remembers_after name _).answer_eq, recalled, List.reverse_singleton, hkept, hgiven, (hf j).2] at hi
      exact hi.symm
    · intro h calls now i
      rw [(remembers_after name calls).answer_eq, recalled]
      cases hheld : Store.live now (remembered true f none i.pieces calls.reverse) with
      | none => rfl
      | some e =>
        obtain ⟨j, hp, he⟩ := exists_of_remembered (Option.filter_eq_some_iff.mp hheld).1
        have hgiven : given true (some e) = f j := by
          rw [← hread j, ← he]
          rfl
        simp only [hgiven, (hf _).2, h j i hp, Bool.false_eq_true, if_false]

/-- Two arguments by place and one by name can have the same pieces, so a function that tells them
apart is not always given its own result. -/
theorem shared_iff_same_pieces_byName :
    Invocation.pieces ⟨[.text "a", .text "b"], []⟩ = [['a'], ['b']] ∧
    (∀ i : Invocation, Json.isDocument Json.maxDepth (.bool i.args.isEmpty) = true ∧
      (Value.bool i.args.isEmpty).isNull = false) ∧
    ¬ ∀ calls (now : Rat) i,
      (((opened Rat true).afterConsults (fun i => .bool i.args.isEmpty) none "p" calls).consult
      (fun i => .bool i.args.isEmpty) none "p" now i).1 = .bool i.args.isEmpty := by
  have h := shared_iff_same_pieces (T := Rat) "p"
  have hplace := h.2.1 ⟨[.text "a", .text "b"], []⟩ (by simp [Invocation.texts, Value.display])
  have hdocuments : ∀ i : Invocation, Json.isDocument Json.maxDepth (.bool i.args.isEmpty) = true ∧
      (Value.bool i.args.isEmpty).isNull = false := fun _ => ⟨by simp [Json.isDocument], rfl⟩
  refine ⟨hplace.trans (by simp [Invocation.texts, Value.display]), hdocuments, ?_⟩
  intro hown
  have hsame := (h.2.2.2 _ hdocuments).mp hown ⟨[.text "a", .text "b"], []⟩ ⟨[], [("a", .text "b")]⟩
    (by simp [Invocation.pieces, Invocation.texts, Value.display])
  cases hsame

/-- One argument that holds a colon, two arguments, and one argument by name have one key, as have a
number and its text. -/
theorem different_calls_one_key :
    Invocation.key "p" ⟨[.text "a:b"], []⟩ = Invocation.key "p" ⟨[.text "a", .text "b"], []⟩ ∧
    Invocation.key "p" ⟨[.text "a:b"], []⟩ = Invocation.key "p" ⟨[], [("a", .text "b")]⟩ ∧
    Invocation.key "p" ⟨[.int 1], []⟩ = Invocation.key "p" ⟨[.text "1"], []⟩ := by
  simp only [Invocation.key, callKey, List.mergeSort_nil, List.mergeSort_singleton]
  decide

end Cache.Tracked

end CodeAudit

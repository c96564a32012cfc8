import CodeAudit.Data.Table
import CodeAudit.Time.DateTime

/-! A store of values under keys. An entry that has expired is gone for every command, and is
forgotten when a command next touches its key. A store that is down answers no command. -/

namespace CodeAudit

open Time

structure Stored (T α : Type) where
  value : α
  expires : Option T := none

def Stored.isOver {T α : Type} [Seconds T] (e : Stored T α) (now : T) : Bool :=
  match e.expires with
  | some t => decide (t ≤ now)
  | none => false

structure Store (T κ α : Type) where
  entries : Keyed κ (Stored T α) := []
  isDown : Bool := false

namespace Store

variable {T κ α : Type} [Seconds T] [BEq κ]

def down : Fault := .noConnection "down"

variable (s : Store T κ α) (now : T) (key : κ)

def touch : Store T κ α :=
  match s.entries.get? key with
  | some e => if e.isOver now then { s with entries := s.entries.erase key } else s
  | none => s

def find? : Option α := ((s.touch now key).entries.get? key).map Stored.value

def get : Outcome (Option α) × Store T κ α :=
  if s.isDown then (.error down, s) else (.ok (s.find? now key), s.touch now key)

def put (s : Store T κ α) (now : T) (key : κ) (value : α) (lifetime : Option T) : Outcome Unit × Store T κ α :=
  if s.isDown then (.error down, s)
  else (.ok (), { s with entries := s.entries.put key ⟨value, lifetime.map (now + ·)⟩ })

def delete : Outcome Bool × Store T κ α :=
  if s.isDown then (.error down, s)
  else (.ok (s.find? now key).isSome, { s with entries := s.entries.erase key })

def clear : Outcome Unit × Store T κ α := if s.isDown then (.error down, s) else (.ok (), { s with entries := [] })

def keys (s : Store T κ α) : List κ := s.entries.keys

variable {s : Store T κ α} {now : T} {key : κ}

@[simp]
theorem isDown_touch : (s.touch now key).isDown = s.isDown := by
  unfold touch
  split
  · split <;> rfl
  · rfl

@[simp]
theorem isDown_get : (s.get now key).2.isDown = s.isDown := by
  unfold get
  split <;> simp

@[simp]
theorem isDown_put {value : α} {lifetime : Option T} : (s.put now key value lifetime).2.isDown = s.isDown := by
  unfold put
  split <;> rfl

@[simp]
theorem isDown_delete : (s.delete now key).2.isDown = s.isDown := by
  unfold delete
  split <;> rfl

def live (now : T) (held : Option (Stored T α)) : Option (Stored T α) := held.filter fun e => !e.isOver now

theorem get?_touch [LawfulBEq κ] (s : Store T κ α) (now : T) (key other : κ) : (s.touch now key).entries.get? other =
      if other == key then live now (s.entries.get? other) else s.entries.get? other := by
  unfold touch live
  by_cases ho : other = key
  · subst ho
    cases hget : s.entries.get? other with
    | none => simp [hget]
    | some e => cases hover : e.isOver now <;> simp [hover, hget, Keyed.get?_erase, Option.filter_some]
  · split
    · split
      · simp [Keyed.get?_erase, ho]
      · simp [ho]
    · simp [ho]

theorem find?_eq [LawfulBEq κ] (s : Store T κ α) (now : T) (key : κ) :
    s.find? now key = (live now (s.entries.get? key)).map Stored.value := by
  simp [find?, get?_touch]

theorem find?_of_none (h : s.entries.get? key = none) : s.find? now key = none := by simp [find?, touch, h]

theorem find?_of_some [LawfulBEq κ] {e : Stored T α} (h : s.entries.get? key = some e) :
    s.find? now key = if e.isOver now then none else some e.value := by
  simp only [find?, touch, h]
  split
  · simp [Keyed.get?_erase]
  · simp [h]

variable (h : s.isDown = false)

include h

theorem get_of_up (key : κ) : s.get now key = (.ok (s.find? now key), s.touch now key) := by simp [get, h]

theorem put_of_up (key : κ) (value : α) (lifetime : Option T) : s.put now key value lifetime =
      (.ok (), { s with entries := s.entries.put key ⟨value, lifetime.map (now + ·)⟩ }) := by
  simp [put, h]

theorem delete_of_up (key : κ) :
    s.delete now key = (.ok (s.find? now key).isSome, { s with entries := s.entries.erase key }) := by
  simp [delete, h]

end Store

end CodeAudit

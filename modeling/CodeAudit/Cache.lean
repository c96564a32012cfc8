import CodeAudit.Store

/-! Caches in a store. One watches which keys are read and keeps those read often longer. One keeps
JSON texts and tells a monitor of its hits and misses. -/

namespace CodeAudit.Cache

open Time

structure Smart (T κ : Type) where
  store : Store T κ Value := {}
  timeless : Bool := false
  maxSize : Value := .int 1000
  hits : Nat := 0
  misses : Nat := 0
  evictions : Nat := 0
  counts : Keyed κ Nat := []
  history : List κ := []
  /-- What is read of a value that was written. A value that cannot be packed is not written. -/
  pack : Value → Option Value := some

namespace Smart

variable {T κ : Type} [Seconds T] [BEq κ]

def historySize : Nat := 1000

def lastOnes {α : Type} (n : Nat) (xs : List α) : List α := xs.drop (xs.length - n)

variable (c : Smart T κ)

def noteRead (key : κ) : Smart T κ :=
  { c with counts := c.counts.bump key, history := lastOnes historySize (c.history ++ [key]) }

variable (now : T) (key : κ)

def fetch : Value × Smart T κ :=
  match c.store.get now key with
  | (.error _, store) => (.null, { c with store })
  | (.ok found, store) =>
    match found.getD .null with
    | .null => (.null, { c with store, misses := c.misses + 1 }.noteRead key)
    | v => (v, { c with store, hits := c.hits + 1 }.noteRead key)

def usualLifetime : Int := 3600

def lifetime : Int :=
  match c.counts.get? key with
  | none => usualLifetime
  | some count =>
    let recent := (lastOnes 100 c.history).count key
    let importance := (count.toFloat * 0.7 + recent.toFloat * 0.3) / 100.0
    let seconds : Int := Seconds.whole (3600.0 * (1.0 + importance))
    max 300 (min seconds 86400)

def leastRead (counts : Keyed κ Nat) : List κ :=
  let sorted := counts.mergeSort fun a b => decide (a.2 ≤ b.2)
  (sorted.take (max 1 (sorted.length / 10))).map (·.1)

def drop : Smart T κ :=
  { c with
    store := (c.store.delete now key).2
    counts := c.counts.erase key
    evictions := c.evictions + 1 }

def evict : Smart T κ := (leastRead c.counts).foldl (fun c key => c.drop now key) c

def makeRoom : Outcome (Smart T κ) := do
  return if ← Value.atLeast (.nat c.counts.length) c.maxSize then c.evict now else c

def keep (v : Value) : Bool × Option Int × Smart T κ :=
  let seconds := c.lifetime key
  match c.makeRoom now with
  | .error _ => (false, none, c)
  | .ok c =>
    match c.pack v with
    | none => (false, some seconds, c)
    | some v =>
      let (r, store) := c.store.put now key v (if c.timeless then none else some (Seconds.ofNum (.int seconds)))
      (r.isOk, some seconds, { c with store })

end Smart

open Time

inductive Bytes where
  | packed (v : Value)
  | junk

abbrev Remote (T κ : Type) := Store T κ Bytes

namespace Remote

variable {T κ : Type} [Seconds T] [BEq κ] (c : Remote T κ) (now : T) (key : κ)

def fetch : Option Value × Remote T κ :=
  match Store.get c now key with
  | (.ok (some (.packed v)), c) => (some v, c)
  | (_, c) => (none, c)

def keep (pack : Value → Option Value) (v : Value) (lifetime : Option T) : Bool × Remote T κ :=
  match pack v with
  | none => (false, c)
  | some v =>
    let (r, c) := Store.put c now key (.packed v) lifetime
    (r.isOk, c)

def forget : Bool × Remote T κ :=
  match Store.delete c now key with
  | (.ok wasThere, c) => (wasThere, c)
  | (.error _, c) => (false, c)

end Remote

inductive Note where
  | ran
  | told (hit : Bool) (size : Option Nat)

def Note.toValue : Note → Value
  | .ran => "run"
  | .told hit size => .list [.bool hit, (size.map Value.nat).getD .null]

structure Tracked (T : Type) where
  store : Store T String String := {}
  monitored : Bool := false

namespace Tracked

variable {T : Type} [Seconds T] (c : Tracked T) (now : T) (key : String)

def fetch : Value × List Note × Tracked T :=
  let (r, store) := c.store.get now key
  let c := { c with store }
  match r with
  | .error _ => (.null, [], c)
  | .ok text =>
    if c.monitored then
      match text.filter (· ≠ "") with
      | some text => ((Json.parse text).toOption.getD .null, [.told true none], c)
      | none => (.null, [.told false none], c)
    else (.null, [], c)

/-- Keeps a value under a key, if it can be written. It is written before the monitor is told. -/
def keep (v : Value) (lifetime : Option T) : Bool × List Note × Tracked T :=
  if Json.isWritable Json.maxDepth v then
    let text := Json.write {} v
    let (r, store) := c.store.put now key text lifetime
    let c := { c with store }
    if r.isOk && c.monitored then (true, [.told true (some text.utf8ByteSize)], c) else (false, [], c)
  else (false, [], c)

def forget : Bool × Tracked T :=
  let (r, store) := c.store.delete now key
  (r.toOption.getD false, { c with store })

def clear (c : Tracked T) : Bool × Tracked T :=
  let (r, store) := c.store.clear
  (r.isOk, { c with store })

def callKey (name : String) (args : List Value) (named : Entries) : String :=
  let named := named.mergeSort fun a b => decide (a.1 ≤ b.1)
  Text.join ":" ([name] ++ args.map Value.display ++ named.map fun (k, v) => k ++ ":" ++ v.display)

def call (result : Value) (lifetime : Option T) : Value × List Note × Tracked T :=
  match c.fetch now key with
  | (.null, notes, c) =>
    let (_, more, c) := c.keep now key result lifetime
    (result, notes ++ [.ran] ++ more, c)
  | (v, notes, c) => (v, notes, c)

end Tracked

end CodeAudit.Cache

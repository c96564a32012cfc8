import Mathlib.Algebra.Order.Ring.Rat
import Mathlib.Data.Finset.Card
import CodeAudit.Cache

/-! Runs of reads and writes of a cache that watches its keys. Everything the cache counts can be
read off the log of calls. -/

namespace CodeAudit

open List Store Keyed

def Value.isNull : Value → Bool
  | .null => true
  | _ => false

variable {α : Type}

theorem Stored.isOver_eq_false_iff {T : Type} [Time.Seconds T] {e : Stored T α} {now : T} :
    e.isOver now = false ↔ ∀ ending ∈ e.expires, ¬ ending ≤ now := by
  unfold isOver
  cases e.expires <;> simp

namespace Keyed

variable {κ α : Type} [BEq κ] (keys : List κ) (t : Keyed κ α)

def eraseAll : Keyed κ α := keys.foldl (fun t key => t.erase key) t

theorem get?_eraseAll [LawfulBEq κ] (key : κ) :
    (t.eraseAll keys).get? key = if keys.contains key then none else t.get? key := by
  induction keys generalizing t with
  | nil => simp [eraseAll]
  | cons first rest ih =>
    have hrest : (t.eraseAll (first :: rest)).get? key = ((t.erase first).eraseAll rest).get? key := rfl
    rw [hrest, ih, get?_erase]
    by_cases hk : key = first <;> simp [hk]

end Keyed

namespace Cache.Smart

open Time

variable {T κ : Type} {c : Smart T κ} {m : Int} {pack : Value → Option Value}

def gone (c : Smart T κ) : List κ :=
  match Value.atLeast (.nat c.counts.length) c.maxSize with
  | .ok true => leastRead c.counts
  | _ => []

structure Ready (pack : Value → Option Value) (m : Int) (c : Smart T κ) : Prop where
  isUp : c.store.isDown = false
  size : c.maxSize = .int m
  packs : c.pack = pack

theorem Ready.gone_eq (h : Ready pack m c) : c.gone = if m ≤ c.counts.length then leastRead c.counts else [] := by
  unfold gone
  rw [h.size, Value.atLeast_nat_int]
  by_cases hm : m ≤ c.counts.length <;> simp [hm]

section Step

variable [Seconds T] [BEq κ] {now : T}

theorem lastOnes_lastOnes (n : Nat) (xs : List α) (x : α) :
    lastOnes n (lastOnes n xs ++ [x]) = lastOnes n (xs ++ [x]) := by
  simp only [lastOnes, length_append, length_drop, length_singleton]
  by_cases h : xs.length ≤ n
  · simp [Nat.sub_eq_zero_of_le h]
  · have hlen : xs.length - n ≤ xs.length := Nat.sub_le ..
    have hinner : xs.length - (xs.length - n) + 1 - n = 1 := by omega
    have houter : xs.length + 1 - n = xs.length - n + 1 := by omega
    rw [hinner, houter, ← drop_append_of_le_length hlen, drop_drop]

theorem Ready.fetch_eq (h : Ready pack m c) (now : T) (key : κ) : let found := (c.store.find? now key).getD .null
    c.fetch now key = (found, { c with
      store := c.store.touch now key
      hits := c.hits + (!found.isNull).toNat
      misses := c.misses + found.isNull.toNat
      counts := c.counts.bump key
      history := lastOnes historySize (c.history ++ [key]) }) := by
  intro found
  have hfound : (c.store.find? now key).getD .null = found := rfl
  simp only [fetch, get_of_up h.isUp, hfound]
  cases found <;> rfl

def without (c : Smart T κ) (keys : List κ) : Smart T κ :=
  { c with
    store := if c.store.isDown then c.store else { c.store with entries := c.store.entries.eraseAll keys }
    counts := c.counts.eraseAll keys
    evictions := c.evictions + keys.length }

omit [Seconds T] in
theorem without_nil : c.without [] = c := by
  cases h : c.store.isDown <;> simp [without, eraseAll]

theorem foldl_drop (now : T) (keys : List κ) : keys.foldl (fun c key => c.drop now key) c = c.without keys := by
  induction keys generalizing c with
  | nil => exact without_nil.symm
  | cons key rest ih =>
    have hdrop : c.drop now key = c.without [key] := by
      cases h : c.store.isDown <;> simp [drop, delete, without, eraseAll, h]
    rw [foldl_cons, hdrop, ih]
    cases h : c.store.isDown <;> simp [without, eraseAll, h, Nat.add_assoc, Nat.add_comm 1]

def expiry (c : Smart T κ) (now : T) (key : κ) : Option T :=
  if c.timeless then none else some (now + Seconds.ofNum (.int (c.lifetime key)))

theorem expiry_eq {key : κ} {ending : T} (h : ending ∈ c.expiry now key) :
    ending = now + Seconds.ofNum (.int (c.lifetime key)) := by
  unfold expiry at h
  split at h
  · cases h
  · exact (Option.some.inj h).symm

def entriesAfter (c : Smart T κ) (now : T) (key : κ) (kept : Option Value) : Keyed κ (Stored T Value) :=
  match kept with
  | none => c.store.entries.eraseAll c.gone
  | some w => (c.store.entries.eraseAll c.gone).put key ⟨w, c.expiry now key⟩

/-- A write succeeds if the value can be packed. It first takes keys away, and the value then stands
whether or not its own key was among them. -/
theorem Ready.keep_eq (h : Ready pack m c) (now : T) (key : κ) (v : Value) :
    c.keep now key v = ((pack v).isSome, some (c.lifetime key), { c.without c.gone with
      store := { c.store with entries := c.entriesAfter now key (pack v) } }) := by
  have hroom : c.makeRoom now = .ok (c.without c.gone) := by
    simp only [makeRoom, h.size, Value.atLeast_nat_int, h.gone_eq, evict, foldl_drop, ok_bind, decide_eq_true_eq]
    split <;> simp [without_nil]
  have hpacks : (c.without c.gone).pack v = pack v := congrFun h.packs v
  simp only [keep, hroom, hpacks]
  cases pack v with
  | none => simp [entriesAfter, without, h.isUp]
  | some w =>
    dsimp only
    rw [put_of_up (by simp [without, h.isUp])]
    unfold entriesAfter expiry without
    cases c.timeless <;> simp [h.isUp] <;> rfl

end Step

inductive Call (κ : Type) where
  | get (key : κ)
  | set (key : κ) (v : Value)

inductive Event (T κ : Type) where
  | read (time : T) (key : κ) (found : Value)
  | write (time : T) (key : κ) (v : Value) (kept : Option Value) (seconds : Int) (gone : List κ)

open Event

namespace Event

def time : Event T κ → T
  | .read time .. | .write time .. => time

def call : Event T κ → Call κ
  | .read _ key _ => .get key
  | .write _ key v .. => .set key v

def read? : Event T κ → Option (κ × Value)
  | .read _ key found => some (key, found)
  | .write .. => none

def written? : Event T κ → Option κ
  | .read .. => none
  | .write _ key _ kept .. => kept.map fun _ => key

variable [BEq κ]

def takes (key : κ) : Event T κ → Bool
  | .read .. => false
  | .write _ _ _ _ _ gone => gone.contains key

structure Spares [Seconds T] (key : κ) (ending : T) (e : Event T κ) : Prop where
  written : e.written? ≠ some key
  taken : e.takes key = false
  time : ¬ ending ≤ e.time

end Event

def readsIn (log : List (Event T κ)) : List (κ × Value) := log.filterMap Event.read?

def readsSince [BEq κ] (key : κ) (log : List (Event T κ)) : Nat :=
  ((readsIn (log.reverse.takeWhile fun e => !e.takes key)).map Prod.fst).count key

def shown (n : Nat) : Option Nat := if n = 0 then none else some n

theorem readsSince_read [BEq κ] (key other : κ) (now : T) (found : Value) (log : List (Event T κ)) :
    readsSince key (log ++ [.read now other found]) = readsSince key log + (if other == key then 1 else 0) := by
  simp [readsSince, readsIn, takes, read?, count_cons]

theorem readsSince_write [BEq κ] [LawfulBEq κ] (key other : κ) (now : T) (v : Value) (kept : Option Value)
    (seconds : Int) (gone : List κ) (log : List (Event T κ)) :
    readsSince key (log ++ [.write now other v kept seconds gone]) =
      if gone.contains key then 0 else readsSince key log := by
  by_cases h : key ∈ gone <;>
    simp [readsSince, readsIn, takes, read?, filterMap_cons, h]

theorem counts_bump [BEq κ] [LawfulBEq κ] (counts : Keyed κ Nat) (log : List (Event T κ)) (now : T) (key other : κ)
    (found : Value) (h : ∀ key, counts.get? key = shown (readsSince key log)) :
    (counts.bump other).get? key = shown (readsSince key (log ++ [.read now other found])) := by
  have hold : (counts.get? other).getD 0 = readsSince other log := by
    rw [h, shown]
    split <;> simp_all
  rw [bump, get?_put, hold, readsSince_read]
  by_cases hk : key = other
  · simp [hk, shown]
  · have hk' : ¬ other = key := fun he => hk he.symm
    simp [hk, hk', h key]

structure Desk (T κ : Type) where
  cache : Smart T κ
  log : List (Event T κ) := []

variable [Seconds T] [BEq κ]

def event (c : Smart T κ) (now : T) : Call κ → Event T κ
  | .get key => .read now key (c.fetch now key).1
  | .set key v => .write now key v (c.pack v) (c.lifetime key) c.gone

def step (c : Smart T κ) (now : T) : Call κ → Smart T κ
  | .get key => (c.fetch now key).2
  | .set key v => (c.keep now key v).2.2

def Desk.next (d : Desk T κ) (now : T) (call : Call κ) : Desk T κ :=
  ⟨d.cache.step now call, d.log ++ [d.cache.event now call]⟩

def opened (pack : Value → Option Value) (held : Keyed κ (Stored T Value)) (timeless : Bool) (m : Int) : Smart T κ :=
  { store := { entries := held }, timeless, maxSize := .int m, pack }

variable (start : Smart T κ) (calls : List (T × Call κ))

def deskAfter : Desk T κ :=
  calls.foldl (fun d e => d.next e.1 e.2) ⟨start, []⟩

theorem deskAfter_append (now : T) (call : Call κ) :
    deskAfter start (calls ++ [(now, call)]) = (deskAfter start calls).next now call := by
  simp [deskAfter]

theorem calls_deskAfter : (deskAfter start calls).log.map (fun e => (e.time, e.call)) = calls := by
  induction calls using List.reverseRecOn with
  | nil => rfl
  | append_singleton calls e ih =>
    obtain ⟨now, call⟩ := e
    rw [deskAfter_append, Desk.next, map_append, ih]
    cases call <;> rfl

def Stands (d : Desk T κ) : Prop :=
  ∀ before now key v w seconds gone between, d.log = before ++ .write now key v (some w) seconds gone :: between →
    (∀ e ∈ between, e.Spares key (now + Seconds.ofNum (.int seconds))) →
    ∃ expires, d.cache.store.entries.get? key = some ⟨w, expires⟩ ∧
      ∀ ending ∈ expires, ending = now + Seconds.ofNum (.int seconds)

def GivesWritten (log : List (Event T κ)) : Prop :=
  ∀ before now key v w seconds gone between later found rest,
    log = before ++ .write now key v (some w) seconds gone :: (between ++ .read later key found :: rest) →
    (∀ e ∈ between, e.Spares key (now + Seconds.ofNum (.int seconds))) →
    ¬ now + Seconds.ofNum (.int seconds) ≤ later → found = w

structure Books (pack : Value → Option Value) (m : Int) (d : Desk T κ) : Prop where
  ready : Ready pack m d.cache
  hits : d.cache.hits = (readsIn d.log).countP fun r => !r.2.isNull
  misses : d.cache.misses = (readsIn d.log).countP fun r => r.2.isNull
  history : d.cache.history = lastOnes historySize ((readsIn d.log).map Prod.fst)
  counts : ∀ key, d.cache.counts.get? key = shown (readsSince key d.log)
  stands : Stands d
  given : GivesWritten d.log
  packed : ∀ now key v kept seconds gone, .write now key v kept seconds gone ∈ d.log → kept = pack v

section Lawful

variable [LawfulBEq κ] {m : Int}

omit [LawfulBEq κ] in
theorem Ready.step (h : Ready pack m c) (now : T) (call : Call κ) : Ready pack m (c.step now call) := by
  cases call with
  | get key =>
    simp only [Smart.step, h.fetch_eq]
    exact ⟨isDown_touch.trans h.isUp, h.size, h.packs⟩
  | set key v =>
    simp only [Smart.step, h.keep_eq]
    exact ⟨h.isUp, h.size, h.packs⟩

theorem Ready.get?_step_get (h : Ready pack m c) (now : T) (key other : κ) :
    (c.step now (.get other)).store.entries.get? key =
      if key == other then live now (c.store.entries.get? key) else c.store.entries.get? key := by
  simp only [Smart.step, h.fetch_eq, get?_touch]

theorem Ready.get?_step_set (h : Ready pack m c) (now : T) (key other : κ) {v w : Value} (hv : pack v = some w) :
    (c.step now (.set other v)).store.entries.get? key = if key == other then some ⟨w, c.expiry now other⟩
      else if c.gone.contains key then none else c.store.entries.get? key := by
  simp only [Smart.step, h.keep_eq, hv, entriesAfter, get?_put, get?_eraseAll]

theorem Ready.get?_step_refused (h : Ready pack m c) (now : T) (key other : κ) {v : Value} (hv : pack v = none) :
    (c.step now (.set other v)).store.entries.get? key =
      if c.gone.contains key then none else c.store.entries.get? key := by
  simp only [Smart.step, h.keep_eq, hv, entriesAfter, get?_eraseAll]

theorem Ready.get?_step_of_spares (h : Ready pack m c) {now ending : T} {key : κ} {entry : Stored T Value}
    (hget : c.store.entries.get? key = some entry)
    (hends : ∀ t ∈ entry.expires, t = ending) {call : Call κ} (hs : (c.event now call).Spares key ending) :
    (c.step now call).store.entries.get? key = some entry := by
  cases call with
  | get other =>
    have hover : entry.isOver now = false := Stored.isOver_eq_false_iff.mpr fun t ht => hends t ht ▸ hs.time
    rw [h.get?_step_get, hget]
    simp [live, hover]
  | set other v =>
    have hgone : c.gone.contains key = false := hs.taken
    cases hv : pack v with
    | none =>
      rw [h.get?_step_refused now key other hv, hgone]
      exact hget
    | some w =>
      have hne : ((c.pack v).map fun _ => other) ≠ some key := hs.written
      rw [h.packs, hv] at hne
      have hother : (key == other) = false := by simpa using fun he => hne (congrArg some he.symm)
      rw [h.get?_step_set now key other hv, hother, hgone]
      exact hget

variable {d : Desk T κ}

theorem Stands.next (h : Ready pack m d.cache) (hd : Stands d) (now : T) (call : Call κ) :
    Stands (d.next now call) := by
  intro before t key v w seconds gone between hlog hspares
  rcases snoc_eq_append_cons hlog with ⟨-, he, -⟩ | ⟨middle, rfl, hold⟩
  -- Either the last call is the write itself, or the value stood before it and it spares the value.
  · cases call with
    | get other => cases he
    | set other u =>
      obtain ⟨rfl, rfl, rfl, hkept, rfl, rfl⟩ := Event.write.inj he
      rw [h.packs] at hkept
      exact ⟨d.cache.expiry now other, by simp [Desk.next, h.get?_step_set now other other hkept], fun _ => expiry_eq⟩
  · obtain ⟨expires, hget, hends⟩ :=
      hd before t key v w seconds gone middle hold fun e he => hspares e (mem_append_left _ he)
    have hlast := hspares (d.cache.event now call) (mem_append_right _ (mem_singleton_self _))
    exact ⟨expires, h.get?_step_of_spares hget hends hlast, hends⟩

theorem GivesWritten.next (h : Ready pack m d.cache) (hd : Stands d) (hlog : GivesWritten d.log) (now : T)
    (call : Call κ) : GivesWritten (d.next now call).log := by
  intro before t key v w seconds gone between later found rest heq hspares hlater
  have hsplit : d.log ++ [d.cache.event now call] =
      (before ++ .write t key v (some w) seconds gone :: between) ++ .read later key found :: rest := by
    simpa [Desk.next] using heq
  rcases snoc_eq_append_cons hsplit with ⟨hold, he, -⟩ | ⟨middle, -, hold⟩
  -- Only the last call is new, so only if it is the read is there something to show.
  · cases call with
    | set other u => cases he
    | get other =>
      obtain ⟨expires, hget, hends⟩ := hd before t key v w seconds gone between hold hspares
      cases he
      have hover : (Stored.mk w expires).isOver now = false :=
        Stored.isOver_eq_false_iff.mpr fun ending hending => hends ending hending ▸ hlater
      simp [h.fetch_eq, find?_of_some hget, hover]
  · exact hlog before t key v w seconds gone between later found middle (by simpa using hold) hspares hlater

theorem Books.next_get (hd : Books pack m d) (now : T) (key : κ) : Books pack m (d.next now (.get key)) where
  ready := hd.ready.step now (.get key)
  hits := by
    simp only [Desk.next, step, event, hd.ready.fetch_eq, hd.hits]
    cases hnull : ((d.cache.store.find? now key).getD .null).isNull <;> simp [readsIn, read?, hnull]
  misses := by
    simp only [Desk.next, step, event, hd.ready.fetch_eq, hd.misses]
    cases hnull : ((d.cache.store.find? now key).getD .null).isNull <;> simp [readsIn, read?, hnull]
  history := by
    simp only [Desk.next, step, event, hd.ready.fetch_eq, hd.history, lastOnes_lastOnes]
    simp [readsIn, read?]
  counts other := by
    simp only [Desk.next, step, event, hd.ready.fetch_eq]
    exact counts_bump _ _ now other key _ hd.counts
  stands := hd.stands.next hd.ready now _
  given := hd.given.next hd.ready hd.stands now _
  packed t other v kept seconds gone he := by
    rcases mem_append.mp he with he | he
    · exact hd.packed t other v kept seconds gone he
    · cases mem_singleton.mp he

theorem Books.next_set (hd : Books pack m d) (now : T) (key : κ) (v : Value) :
    Books pack m (d.next now (.set key v)) := by
  have hkeep := hd.ready.keep_eq now key v
  have hreads : readsIn (d.log ++ [d.cache.event now (.set key v)]) = readsIn d.log := by
    simp [event, readsIn, read?]
  refine ⟨hd.ready.step now (.set key v), ?_, ?_, ?_, ?_, hd.stands.next hd.ready now _,
    hd.given.next hd.ready hd.stands now _, ?_⟩
  · simpa only [Desk.next, hreads, step, hkeep, without] using hd.hits
  · simpa only [Desk.next, hreads, step, hkeep, without] using hd.misses
  · simpa only [Desk.next, hreads, step, hkeep, without] using hd.history
  · intro other
    simp only [Desk.next, step, event, hkeep, without, get?_eraseAll, readsSince_write]
    split
    · rfl
    · exact hd.counts other
  · intro t other w kept seconds gone he
    rcases mem_append.mp he with he | he
    · exact hd.packed t other w kept seconds gone he
    · obtain ⟨-, -, rfl, rfl, -, -⟩ := Event.write.inj (mem_singleton.mp he)
      exact congrFun hd.ready.packs w

theorem books_deskAfter (pack : Value → Option Value) (held : Keyed κ (Stored T Value)) (timeless : Bool) (m : Int)
    (calls : List (T × Call κ)) : Books pack m (deskAfter (opened pack held timeless m) calls) := by
  induction calls using List.reverseRecOn with
  | nil =>
    refine ⟨⟨rfl, rfl, rfl⟩, rfl, rfl, ?_, fun _ => rfl, ?_, ?_, ?_⟩
    · simp [deskAfter, opened, readsIn, lastOnes]
    · intro before _ _ _ _ _ _ _ hlog
      exact absurd hlog (by simp [deskAfter])
    · intro before _ _ _ _ _ _ _ _ _ _ hlog
      exact absurd hlog (by simp [deskAfter])
    · intro _ _ _ _ _ _ he
      cases he
  | append_singleton calls e ih =>
    obtain ⟨now, call⟩ := e
    rw [deskAfter_append]
    cases call with
    | get key => exact ih.next_get now key
    | set key v => exact ih.next_set now key v

end Lawful

/-- After every run over a store that is up, the counts of the cache are those of the log: hits and
misses, the last keys that were read, and how often each key was read since it was last taken away.
A read gives the value that was written last under its key if packing does not change it, unless the
key was taken away or the time of the value came. A value that cannot be packed is refused, and no
key but those taken away changes. -/
theorem books_kept (pack : Value → Option Value) (held : Keyed String (Stored T Value))
    (timeless : Bool) (m : Int) (calls : List (T × Call String)) :
    let d := deskAfter (opened pack held timeless m) calls
    let reads := readsIn d.log
    d.log.map (fun e => (e.time, e.call)) = calls ∧
    d.cache.hits + d.cache.misses = reads.length ∧
    d.cache.hits = reads.countP (fun r => !r.2.isNull) ∧
    d.cache.history = lastOnes (min 1000 reads.length) (reads.map Prod.fst) ∧
    (∀ key, d.cache.counts.get? key =
      if readsSince key d.log = 0 then none else some (readsSince key d.log)) ∧
    (∀ before now key v kept seconds gone between later found rest,
      d.log = before ++ .write now key v kept seconds gone :: (between ++ .read later key found :: rest) →
      (∀ e ∈ between, e.Spares key (now + Seconds.ofNum (.int seconds))) →
      ¬ now + Seconds.ofNum (.int seconds) ≤ later → pack v = some v → found = v) ∧
    ∀ now key v, pack v = none → (d.cache.keep now key v).1 = false ∧
      ∀ other, (d.cache.keep now key v).2.2.store.entries.get? other =
        if d.cache.gone.contains other then none else d.cache.store.entries.get? other := by
  intro d reads
  have hd := books_deskAfter pack held timeless m calls
  refine ⟨calls_deskAfter _ calls, ?_, hd.hits, ?_, hd.counts, ?_, ?_⟩
  · have hall : reads.length = reads.countP (fun r => r.2.isNull) + reads.countP fun r => !r.2.isNull := by
      simpa using List.length_eq_countP_add_countP (fun r : String × Value => r.2.isNull)
    rw [hd.hits, hd.misses, Nat.add_comm]
    exact hall.symm
  · have hlen : reads.length - historySize = reads.length - min 1000 reads.length := by
      simp only [historySize]
      omega
    rw [hd.history, lastOnes, lastOnes, List.length_map, hlen]
  · intro before now key v kept seconds gone between later found rest hlog hspares hlater hv
    obtain rfl : kept = some v := by
      rw [← hv]
      exact hd.packed now key v kept seconds gone (by rw [show d.log = _ from hlog]; simp)
    exact hd.given before now key v v seconds gone between later found rest hlog hspares hlater
  · intro now key v hv
    refine ⟨by rw [hd.ready.keep_eq, hv]; rfl, fun other => ?_⟩
    exact hd.ready.get?_step_refused now other key hv

/-- Packs everything but objects of the program. -/
def packPlain : Value → Option Value
  | .special _ => none
  | v => some v

/-- A value that cannot be packed is not read back although nothing came between. -/
theorem unpacked_not_kept : ∃ (pack : Value → Option Value) (v : Value), v.isNull = false ∧
    (∀ w, pack w = none ∨ pack w = some w) ∧
    (readsIn (deskAfter (opened pack [] false 1000)
      [((0 : Rat), .set "a" v), (1, .get "a")]).log).map
      (fun r => (r.1, r.2.isNull)) = [("a", true)] := by
  refine ⟨packPlain, .special ⟨"function", "<lambda>", "<lambda>", ""⟩, rfl, fun w => ?_, by decide⟩
  cases w with
  | special => exact .inl rfl
  | null | bool | int | float | text | list | object | mapping => exact .inr rfl

section Size

variable {d : Desk Rat String} {now later : Rat} {m : Nat} {key : String} {start : Smart Rat String}
  {calls : List (Rat × Call String)}

def Desk.live (d : Desk Rat String) (now : Rat) : Finset String :=
  (d.log.filterMap Event.written?).toFinset.filter fun key => (d.cache.store.find? now key).isSome

theorem mem_live : key ∈ d.live now ↔
    key ∈ d.log.filterMap written? ∧ (live now (d.cache.store.entries.get? key)).isSome := by
  rw [Desk.live, Finset.mem_filter, mem_toFinset, find?_eq, Option.isSome_map]

theorem live_subset (h : now ≤ later) : d.live later ⊆ d.live now := by
  intro key hkey
  rw [mem_live] at hkey ⊢
  refine ⟨hkey.1, ?_⟩
  obtain ⟨entry, hentry⟩ := Option.isSome_iff_exists.mp hkey.2
  obtain ⟨hget, hover⟩ := Option.filter_eq_some_iff.mp hentry
  rw [Bool.not_eq_true', Stored.isOver_eq_false_iff] at hover
  have hearlier : entry.isOver now = false := Stored.isOver_eq_false_iff.mpr fun t ht hle => hover t ht (hle.trans h)
  rw [hget]
  simp [live, hearlier]

theorem live_next_get (hd : Books some m d) (now : Rat) (key : String) :
    (d.next now (.get key)).live now = d.live now := by
  ext other
  have hlog : (d.next now (.get key)).log.filterMap written? = d.log.filterMap written? := by
    simp [Desk.next, event, written?]
  have hget := hd.ready.get?_step_get now other key
  rw [mem_live, mem_live, hlog]
  simp only [Desk.next, hget]
  split
  · simp [live]
  · rfl

theorem lifetime_pos (c : Smart Rat String) (key : String) : 0 < c.lifetime key := by
  unfold lifetime
  split
  · simp [usualLifetime]
  · exact lt_of_lt_of_le (by decide) (le_max_left 300 _)

theorem isOver_expiry (c : Smart Rat String) (now : Rat) (key : String) (v : Value) :
    (Stored.mk v (c.expiry now key)).isOver now = false := by
  have hpos : (0 : Rat) < (c.lifetime key : Rat) := by exact_mod_cast lifetime_pos c key
  rw [Stored.isOver_eq_false_iff]
  intro ending hending
  have hends := expiry_eq hending
  rw [hends]
  exact not_le.mpr (lt_add_of_pos_right now hpos)

theorem live_next_set (hd : Books some m d) (now : Rat) (key : String) (v : Value) :
    (d.next now (.set key v)).live now = insert key (d.live now \ d.cache.gone.toFinset) := by
  ext other
  have hlog : other ∈ (d.next now (.set key v)).log.filterMap written? ↔
      other ∈ d.log.filterMap written? ∨ other = key := by
    simp [Desk.next, event, written?, hd.ready.packs, eq_comm]
  have hget := hd.ready.get?_step_set now other key (v := v) rfl
  rw [mem_live, hlog, Finset.mem_insert, Finset.mem_sdiff, mem_live]
  simp only [Desk.next, hget]
  by_cases hk : other = key
  · simp [hk, live, isOver_expiry]
  · by_cases hg : other ∈ d.cache.gone
    · simp [hk, hg, live]
    · simp [hk, hg]

/-- If a key is written that is not live and the live ones are already as many as there is room
for, then the table of the keys that were read is full and one of the live keys is among the
least read. -/
def Desk.RoomFor (d : Desk Rat String) (m : Nat) (now : Rat) (key : String) : Prop :=
  key ∉ d.live now → (d.live now).card = m →
    m ≤ d.cache.counts.length ∧ ∃ other ∈ leastRead d.cache.counts, other ∈ d.live now

theorem card_live_set_le_iff (hd : Books some m d) (hcard : (d.live now).card ≤ m) (key : String) (v : Value) :
    ((d.next now (.set key v)).live now).card ≤ m ↔ d.RoomFor m now key := by
  have hgone : ∀ other, other ∈ d.cache.gone ↔ m ≤ d.cache.counts.length ∧ other ∈ leastRead d.cache.counts := by
    rw [hd.ready.gone_eq]
    by_cases hsize : m ≤ d.cache.counts.length <;> simp
  rw [live_next_set hd]
  constructor
  -- Without room no live key goes, and the new one is one too many.
  · intro hnext hnew hfull
    by_contra hroom
    have hkept : d.live now \ d.cache.gone.toFinset = d.live now := by
      rw [Finset.sdiff_eq_self_iff_disjoint, Finset.disjoint_left]
      intro other hlive hother
      obtain ⟨hsize, hleast⟩ := (hgone other).mp (mem_toFinset.mp hother)
      exact hroom ⟨hsize, other, hleast, hlive⟩
    rw [hkept, Finset.card_insert_of_notMem hnew] at hnext
    omega
  · intro hroom
    have hsub : d.live now \ d.cache.gone.toFinset ⊆ d.live now := Finset.sdiff_subset
    by_cases hnew : key ∈ d.live now
    · exact (Finset.card_le_card (Finset.insert_subset hnew hsub)).trans hcard
    · refine (Finset.card_insert_le _ _).trans ?_
      by_cases hfull : (d.live now).card = m
      · obtain ⟨hsize, other, hleast, hlive⟩ := hroom hnew hfull
        have hother : other ∉ d.live now \ d.cache.gone.toFinset := by simp [(hgone other).mpr ⟨hsize, hleast⟩]
        have hlt := Finset.card_lt_card ((Finset.ssubset_iff_of_subset hsub).mpr ⟨other, hlive, hother⟩)
        omega
      · have hle := Finset.card_le_card hsub
        omega

def AtEach {α : Type} (P : List α → α → Prop) (calls : List α) : Prop :=
  ∀ before e, before ++ [e] <+: calls → P before e

variable (P : List α → α → Prop)

theorem atEach_nil : AtEach P [] := by simp [AtEach]

theorem atEach_snoc (calls : List α) (e : α) :
    AtEach P (calls ++ [e]) ↔ AtEach P calls ∧ P calls e := by
  constructor
  · intro h
    exact ⟨fun before x hx => h before x (hx.trans (prefix_append ..)), h calls e (prefix_refl _)⟩
  · rintro ⟨hcalls, he⟩ before x hx
    rcases prefix_concat_iff.mp hx with heq | hx
    · obtain ⟨rfl, hlast⟩ := append_inj' heq rfl
      rwa [singleton_inj.mp hlast]
    · exact hcalls before x hx

def IsWithin (start : Smart Rat String) (m : Nat) (before : List (Rat × Call String)) (e : Rat × Call String) :
    Prop := ((deskAfter start (before ++ [e])).live e.1).card ≤ m

def HasRoom (start : Smart Rat String) (m : Nat) (before : List (Rat × Call String)) (e : Rat × Call String) : Prop :=
  ∀ key v, e.2 = .set key v → (deskAfter start before).RoomFor m e.1 key

theorem card_live_le (h : AtEach (IsWithin start m) calls) (hlast : ∀ e ∈ calls, e.1 ≤ now) :
    ((deskAfter start calls).live now).card ≤ m := by
  rcases eq_nil_or_concat calls with rfl | ⟨before, e, rfl⟩
  · have hnone : (deskAfter start []).live now = ∅ := Finset.filter_empty _
    exact Nat.zero_le m
  · rw [concat_eq_append] at h hlast ⊢
    have htime : e.1 ≤ now := hlast e (by simp)
    exact (Finset.card_le_card (live_subset htime)).trans ((atEach_snoc _ _ _).mp h).2

/-- The number of live keys stays within the size of the cache exactly in those runs in which there
is room for each further key. What is compared with the size is the table of the keys that were
read, and only these are taken away. -/
theorem live_within_iff_hasRoom (held : Keyed String (Stored Rat Value)) (timeless : Bool) (m : Nat)
    (calls : List (Rat × Call String)) (horder : calls.Pairwise fun a b => a.1 ≤ b.1) :
    AtEach (IsWithin (opened some held timeless m) m) calls ↔
      AtEach (HasRoom (opened some held timeless m) m) calls := by
  induction calls using List.reverseRecOn with
  | nil => exact iff_of_true (atEach_nil _) (atEach_nil _)
  | append_singleton calls e ih =>
    obtain ⟨hold, -, hlast⟩ := List.pairwise_append.mp horder
    rw [atEach_snoc, atEach_snoc, ← ih hold, and_congr_right_iff]
    intro hwithin
    -- The bound after the call before holds on at the time of this one.
    have hcard := card_live_le hwithin fun x hx => hlast x hx e (List.mem_singleton_self e)
    have hbooks := books_deskAfter some held timeless m calls
    obtain ⟨now, call⟩ := e
    unfold IsWithin HasRoom
    rw [deskAfter_append]
    cases call with
    | get key =>
      rw [live_next_get hbooks]
      exact iff_of_true hcard (by rintro _ _ ⟨⟩)
    | set key v =>
      rw [card_live_set_le_iff hbooks hcard]
      constructor
      · rintro hroom _ _ ⟨⟩
        exact hroom
      · exact fun hroom => hroom key v rfl

def readBetween : List (Rat × Call String) := [(0, .set "a" (.int 1)), (1, .get "a"), (2, .set "b" (.int 2))]

theorem live_within_iff_hasRoom_read : readBetween.Pairwise (fun a b => a.1 ≤ b.1) ∧
    AtEach (IsWithin (opened some [] false (1 : Nat)) 1) readBetween := by
  have horder : readBetween.Pairwise fun a b => a.1 ≤ b.1 := by decide
  refine ⟨horder, (live_within_iff_hasRoom [] false 1 readBetween horder).mpr ?_⟩
  refine (atEach_snoc _ [_, _] _).mpr
    ⟨(atEach_snoc _ [_] _).mpr ⟨(atEach_snoc _ [] _).mpr ⟨atEach_nil _, ?_⟩, ?_⟩, ?_⟩
  · rintro _ _ ⟨⟩
    unfold Desk.RoomFor
    decide
  · rintro _ _ ⟨⟩
  · rintro _ _ ⟨⟩
    unfold Desk.RoomFor
    decide +kernel

/-- A cache whose keys are never read grows beyond its size. -/
theorem live_beyond_size :
    ∃ calls : List (Rat × Call String), calls.Pairwise (fun a b => a.1 ≤ b.1) ∧
    ¬ AtEach (IsWithin (opened some [] false (1 : Nat)) 1) calls := by
  refine ⟨[(0, .set "a" (.int 1)), (1, .set "b" (.int 2))], by decide, ?_⟩
  intro h
  have hcard := h [(0, .set "a" (.int 1))] (1, .set "b" (.int 2)) (List.prefix_refl _)
  revert hcard
  unfold IsWithin
  decide +kernel

end Size

end Cache.Smart

/-! What a full cache takes away: a tenth of the keys in its table and at least one, those that were
read least. -/

theorem Keyed.eraseAll_eq_filter {κ : Type} [BEq κ] [LawfulBEq κ] (keys : List κ) (t : Keyed κ α) :
    t.eraseAll keys = t.filter fun e => !keys.contains e.1 := by
  induction keys generalizing t with
  | nil => simp [eraseAll]
  | cons key rest ih =>
    change (t.erase key).eraseAll rest = _
    rw [ih, erase, filter_filter]
    refine filter_congr fun e _ => ?_
    rw [contains_cons, Bool.not_or, Bool.and_comm, BEq.comm]

namespace Cache.Smart

open Time

section Table

variable {counts : Keyed String Nat} {key : String}

theorem length_leastRead (counts : Keyed String Nat) :
    (leastRead counts).length = min counts.length (max 1 (counts.length / 10)) := by
  rw [leastRead, length_map, length_take, length_mergeSort, Nat.min_comm]

theorem leastRead_sublist (counts : Keyed String Nat) :
    ∃ sorted, sorted.Perm counts.keys ∧ (leastRead counts).Sublist sorted :=
  ⟨_, (mergeSort_perm counts _).map Prod.fst, (take_sublist _ _).map Prod.fst⟩

theorem nodup_leastRead (h : counts.keys.Nodup) : (leastRead counts).Nodup := by
  obtain ⟨sorted, hperm, hsub⟩ := leastRead_sublist counts
  exact (hperm.nodup_iff.mpr h).sublist hsub

theorem mem_keys_of_leastRead (h : key ∈ leastRead counts) : key ∈ counts.keys := by
  obtain ⟨sorted, hperm, hsub⟩ := leastRead_sublist counts
  exact hperm.subset (hsub.subset h)

theorem reads_le_of_leastRead (h : counts.keys.Nodup) {e other : String × Nat} (he : e ∈ counts)
    (hgone : e.1 ∈ leastRead counts) (hother : other ∈ counts) (hkept : other.1 ∉ leastRead counts) :
    e.2 ≤ other.2 := by
  let sorted := counts.mergeSort fun a b => decide (a.2 ≤ b.2)
  have hsorted : sorted.Pairwise fun a b => decide (a.2 ≤ b.2) :=
    pairwise_mergeSort (by simpa using fun _ _ _ => Nat.le_trans) (by simpa using fun _ _ => Nat.le_total _ _) counts
  have hmem (x : String × Nat) : x ∈ sorted ↔ x ∈ counts := (mergeSort_perm counts _).mem_iff
  rw [← take_append_drop (max 1 (sorted.length / 10)) sorted, pairwise_append] at hsorted
  obtain ⟨x, hx, hkey⟩ := mem_map.mp hgone
  have hsame : x.2 = e.2 := by
    have hxe := get?_of_mem h ((hmem x).mp (mem_of_mem_take hx))
    rw [hkey, get?_of_mem h he] at hxe
    exact (Option.some.inj hxe).symm
  have hbehind : other ∈ sorted.drop (max 1 (sorted.length / 10)) := by
    have hcut := (hmem other).mpr hother
    rw [← take_append_drop (max 1 (sorted.length / 10)) sorted, mem_append] at hcut
    exact hcut.resolve_left fun hfront => hkept (mem_map_of_mem hfront)
  simpa [hsame] using hsorted.2.2 x hx other hbehind

theorem length_filter_kept {gone : List String} (h : counts.keys.Nodup) (hnodup : gone.Nodup)
    (hsub : ∀ key ∈ gone, key ∈ counts.keys) :
    (counts.filter fun e => !gone.contains e.1).length + gone.length = counts.length := by
  have hgone : (counts.keys.filter gone.contains).Perm gone := by
    refine (perm_ext_iff_of_nodup (h.filter _) hnodup).mpr fun key => ?_
    simpa using hsub key
  have hcount : counts.countP (fun e => gone.contains e.1) = gone.length := by
    rw [← hgone.length_eq, ← countP_eq_length_filter, Keyed.keys, countP_map]
    rfl
  rw [← countP_eq_length_filter, ← hcount, Nat.add_comm]
  simpa using (length_eq_countP_add_countP (fun e : String × Nat => gone.contains e.1)).symm

end Table

variable {T : Type} [Seconds T]

/-- For every table, in which no key stands twice: what is taken away are as many keys as said, none
read more often than a key that stays. The rest of the table is as it was, and so is what the store
holds under other keys; a store that is down keeps all. -/
theorem least_read_evicted (c : Smart T String) (now : T) (hkeys : c.counts.keys.Nodup) :
    ∃ gone : List String, let n := c.counts.length
    gone.Nodup ∧ gone.length = min n (max 1 (n / 10)) ∧
    (c.evict now).counts = c.counts.filter (fun e => !gone.contains e.1) ∧
    (c.evict now).counts.length + gone.length = n ∧
    (∀ e ∈ c.counts, e.1 ∈ gone → ∀ other ∈ (c.evict now).counts, e.2 ≤ other.2) ∧
    (c.evict now).evictions = c.evictions + gone.length ∧
    (c.store.isDown = false → ∀ key, (c.evict now).store.entries.get? key =
      if gone.contains key then none else c.store.entries.get? key) ∧
    (c.store.isDown = true → (c.evict now).store = c.store) ∧
    (c.evict now).hits = c.hits ∧ (c.evict now).misses = c.misses ∧ (c.evict now).history = c.history := by
  have hnodup := nodup_leastRead hkeys
  have hlength := length_filter_kept hkeys hnodup fun _ => mem_keys_of_leastRead
  have hreads : ∀ e ∈ c.counts, e.1 ∈ leastRead c.counts →
      ∀ other ∈ c.counts.filter (fun e => !(leastRead c.counts).contains e.1), e.2 ≤ other.2 := by
    intro e he hgone other hother
    rw [mem_filter] at hother
    exact reads_le_of_leastRead hkeys he hgone hother.1 (by simpa using hother.2)
  refine ⟨leastRead c.counts, hnodup, length_leastRead _, ?_⟩
  rw [← Keyed.eraseAll_eq_filter] at hlength hreads ⊢
  rw [evict, foldl_drop]
  exact ⟨rfl, hlength, hreads, rfl, fun h key => by simp [without, h, Keyed.get?_eraseAll],
    fun h => by simp [without, h], rfl, rfl, rfl⟩

def twentyRead : Smart Rat String where
  store := { entries := [("a", { value := .int 1 }), ("b", { value := .int 2 })] }
  counts := "abcdefghijklmnopqrst".toList.zipIdx.map fun (c, i) => (c.toString, i % 3 + 1)

theorem least_read_evicted_twentyRead : twentyRead.counts.keys.Nodup ∧
    ∃ gone : List String, gone.Nodup ∧ gone.length = 2 ∧ (twentyRead.evict 0).counts.length = 18 ∧
      (∀ e ∈ twentyRead.counts, e.1 ∈ gone → ∀ other ∈ (twentyRead.evict 0).counts, e.2 ≤ other.2) ∧
      (twentyRead.evict 0).evictions = 2 := by
  have hkeys : twentyRead.counts.keys.Nodup := by decide
  have hcount : twentyRead.counts.length = 20 := by decide
  obtain ⟨gone, hnodup, hlength, -, hrest, hreads, hevictions, -⟩ := least_read_evicted twentyRead 0 hkeys
  rw [hcount] at hlength hrest
  have htwo : gone.length = 2 := hlength
  rw [htwo] at hrest hevictions
  exact ⟨hkeys, gone, hnodup, htwo, by omega, hreads, hevictions⟩

end Cache.Smart

end CodeAudit

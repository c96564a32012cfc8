import Mathlib.Tactic.Linarith
import CodeAudit.Limit

/-! Runs of requests through the limits by address, under the standard rules and with exact times.
The limiter forgets the times older than every window, but counts the same as the whole log. -/

namespace CodeAudit.Limit

open List Time AddressLimiter

structure Request where
  time : Rat
  address : String
  path : String

structure Figures where
  requests : Int
  window : Int
  blockTime : Int

def Figures.rule (f : Figures) : Rule := ⟨.int f.requests, .int f.window, .int f.blockTime⟩

def figuresOf (path : String) : Figures :=
  if Text.startsWith "/auth" path then ⟨5, 300, 1800⟩
  else if Text.startsWith "/api" path then ⟨100, 60, 300⟩
  else ⟨1000, 3600, 3600⟩

variable (path : String)

theorem standardRules_ruleOf : standardRules.get? (ruleOf path) = some (figuresOf path).rule := by
  unfold ruleOf figuresOf
  split_ifs <;> rfl

theorem figuresOf_mem : figuresOf path ∈ [⟨5, 300, 1800⟩, ⟨100, 60, 300⟩, ⟨1000, 3600, 3600⟩] := by
  unfold figuresOf
  split_ifs <;> simp

theorem figuresOf_window_le : (figuresOf path).window ≤ 3600 :=
  (by decide : ∀ f ∈ [_, _, _], Figures.window f ≤ 3600) _ (figuresOf_mem path)

theorem figuresOf_blockTime_truthy : (Value.int (figuresOf path).blockTime).truthy :=
  (by decide : ∀ f ∈ [_, _, _], (Value.int (Figures.blockTime f)).truthy) _ (figuresOf_mem path)

theorem lengthOf_blockTime :
    lengthOf "+" (.int (figuresOf path).blockTime) = .ok ((figuresOf path).blockTime : Rat) := by
  have hfit : (Num.int (figuresOf path).blockTime).fitsFloat :=
    (by decide +kernel : ∀ f ∈ [_, _, _], (Num.int (Figures.blockTime f)).fitsFloat) _ (figuresOf_mem path)
  simp only [lengthOf, Value.number?, hfit, if_true]
  rfl

theorem longestWindow_standardRules : longestWindow standardRules = .ok (.int 3600) := rfl

def lately (now : Rat) (window : Int) (times : List Rat) : List Rat := times.filter fun t => now - t ≤ window

theorem within_int (now : Rat) (window : Int) (times : List Rat) :
    within now (.int window) times = .ok (lately now window times) := rfl

/-! What one request does to the limiter. -/

section Parts

variable {T : Type} {l : AddressLimiter T String} {address : String}

variable (times : List T)

theorem requestsOf_put (l : AddressLimiter T String) (address : String) (times : List T) (other : String) :
    requestsOf { l with requests := l.requests.put address times } other =
      if other = address then times else l.requestsOf other := by
  simp only [requestsOf, Keyed.get?_put, beq_iff_eq]
  split_ifs <;> rfl

theorem requestsOf_setRequests (other : String) : (l.setRequests address times).requestsOf other =
      if other = address then times else l.requestsOf other := by
  unfold setRequests
  split_ifs with he ho ho
  · simp [requestsOf, Keyed.get?_erase, ho, isEmpty_iff.mp he]
  · simp [requestsOf, Keyed.get?_erase, ho]
  · simp [requestsOf_put, ho]
  · simp [requestsOf_put, ho]

theorem setRequests_blocks : (l.setRequests address times).blocks = l.blocks := by
  unfold setRequests
  split_ifs <;> rfl

theorem setRequests_rules : (l.setRequests address times).rules = l.rules := by
  unfold setRequests
  split_ifs <;> rfl

variable [Seconds T] {now : T}

theorem dropEnded_requests : (l.dropEnded now address).requests = l.requests := by
  unfold dropEnded
  split
  · split_ifs <;> rfl
  · rfl

theorem dropEnded_requestsOf (other : String) : (l.dropEnded now address).requestsOf other = l.requestsOf other := by
  simp only [requestsOf, dropEnded_requests]

theorem dropEnded_rules : (l.dropEnded now address).rules = l.rules := by
  unfold dropEnded
  split
  · split_ifs <;> rfl
  · rfl

def looked (l : AddressLimiter T String) (now : T) (address : String) : AddressLimiter T String :=
  { l.dropEnded now address with
    requests := (l.dropEnded now address).requests.put address ((l.dropEnded now address).requestsOf address) }

theorem looked_requestsOf (other : String) : (looked l now address).requestsOf other = l.requestsOf other := by
  rw [looked, requestsOf_put, dropEnded_requestsOf, dropEnded_requestsOf, ite_eq_right_iff]
  rintro rfl
  rfl

theorem looked_rules : (looked l now address).rules = l.rules := dropEnded_rules

end Parts

variable {l : AddressLimiter Rat String} {now : Rat} {address : String} {t : Rat}

theorem dropEnded_blocks {other : String} (ht : now < t) :
    (l.dropEnded now address).blocks.get? other = some t ↔ l.blocks.get? other = some t := by
  unfold dropEnded
  split
  next u hu =>
    split_ifs with hle
    · have hle' : u ≤ now := hle
      by_cases ho : other = address
      · subst ho
        have hne : u ≠ t := by intro h; subst h; exact absurd ht (not_lt.mpr hle')
        simp [Keyed.get?_erase, hu, hne]
      · simp [Keyed.get?_erase, ho]
    · rfl
  next => rfl

theorem blockEnd?_eq_some : l.blockEnd? now address = some t ↔ l.blocks.get? address = some t ∧ now < t := by
  unfold blockEnd?
  simp

theorem check_of_blocked (h : l.blockEnd? now address = some t) : l.check now address (ruleOf path) =
      (.ok { allowed := false, retryAfter := .int ((t - now).num.tdiv (t - now).den) }, l) := by
  simp only [check, checkUnder, h]
  rfl

theorem check_of_open (hr : l.rules = standardRules) (h : l.blockEnd? now address = none) :
    l.check now address (ruleOf path) =
      if (figuresOf path).requests ≤ (lately now (figuresOf path).window (l.requestsOf address)).length then
        (.ok { allowed := false, retryAfter := .int (figuresOf path).blockTime,
               newBlock := some (.int (figuresOf path).blockTime) },
          { looked l now address with
            blocks := (l.dropEnded now address).blocks.put address (now + (figuresOf path).blockTime) })
      else (.ok { allowed := true }, looked l now address) := by
  have hrule : l.rule (ruleOf path) = .ok (figuresOf path).rule := by
    simp only [AddressLimiter.rule, hr, standardRules_ruleOf]
  have hlooked : { l.dropEnded now address with
      requests := (l.dropEnded now address).requests.put address
        ((l.dropEnded now address).requestsOf address) } = looked l now address := rfl
  simp only [check, checkUnder, h, hrule, hlooked, judge, recent, looked_requestsOf, Figures.rule, within_int,
    Value.atLeast_nat_int, figuresOf_blockTime_truthy, block, lengthOf_blockTime, ok_bind]
  by_cases hle : (figuresOf path).requests ≤
      (lately now (figuresOf path).window (l.requestsOf address)).length
  · simp [hle, looked]
  · simp [hle]

structure Handles (l : AddressLimiter Rat String) (now : Rat) (address path : String) (v : Verdict)
    (next : AddressLimiter Rat String) : Prop where
  rules : next.rules = standardRules
  passes : v.allowed = true ↔ l.blockEnd? now address = none ∧
    (lately now (figuresOf path).window (l.requestsOf address)).length < (figuresOf path).requests
  times : ∀ other, next.requestsOf other = if v.allowed = true ∧ other = address
    then lately now 3600 (l.requestsOf address ++ [now]) else l.requestsOf other
  blocks : ∀ other t, now < t → (next.blocks.get? other = some t ↔ l.blocks.get? other = some t ∨
    (v.allowed = false ∧ l.blockEnd? now address = none) ∧ address = other ∧ now + (figuresOf path).blockTime = t)

theorem exists_handles (hr : l.rules = standardRules) (now : Rat) (address : String) :
    ∃ v next, l.handle now address path = (.ok v, next) ∧ Handles l now address path v next := by
  cases h : l.blockEnd? now address with
  | some t => exact ⟨_, l, by rw [handle, check_of_blocked path h]; rfl, hr, by simp [h], by simp, by simp [h]⟩
  | none =>
    have hc := check_of_open path hr h
    split_ifs at hc with hle
    · refine ⟨_, (l.check now address (ruleOf path)).2, by rw [handle, hc]; rfl, ?_⟩
      rw [hc]
      refine ⟨looked_rules.trans hr, by simpa [h] using hle, ?_, ?_⟩
      · intro other
        exact looked_requestsOf other
      · intro other t ht
        rw [Keyed.get?_put]
        split_ifs with hx
        · obtain rfl : other = address := by simpa using hx
          -- An earlier block that lasts beyond now would have been met.
          have hnone : l.blocks.get? other ≠ some t := by
            intro hget
            rw [blockEnd?_eq_some.mpr ⟨hget, ht⟩] at h
            cases h
          simp [hnone, h]
        · have hne : address ≠ other := fun he => hx (by simp [he])
          simp [dropEnded_blocks ht, hne]
    · have hrec : (looked l now address).record now address = (.ok (),
          (looked l now address).setRequests address (lately now 3600 (l.requestsOf address ++ [now]))) := by
        simp only [record, looked_rules, hr, longestWindow_standardRules, looked_requestsOf, ok_bind, within_int]
      refine ⟨{ allowed := true }, _, by rw [handle, hc]; simp only [hrec]; rfl, ?_, ?_, ?_, ?_⟩
      · rw [setRequests_rules, looked_rules, hr]
      · simpa [h] using hle
      · simp [requestsOf_setRequests, looked_requestsOf]
      · intro other t ht
        simp [setRequests_blocks, looked, dropEnded_blocks ht]

/-! Runs of requests. -/

structure Answered where
  request : Request
  met : AddressLimiter Rat String
  answer : Outcome Verdict

open Answered

def handleAll (l : AddressLimiter Rat String) : List Request → List Answered
  | [] => []
  | r :: rest => ⟨r, l, (l.handle r.time r.address r.path).1⟩ :: handleAll (l.handle r.time r.address r.path).2 rest

namespace Answered

variable (a : Answered)

def isPassed : Bool :=
  match a.answer with
  | .ok v => v.allowed
  | .error _ => false

def isRefused : Bool :=
  match a.answer with
  | .ok v => !v.allowed
  | .error _ => false

def metBlock : Bool := (a.met.isBlocked a.request.time a.request.address).1

def hasExceeded : Bool := a.isRefused && !a.metBlock

def blockEnd : Rat := a.request.time + (figuresOf a.request.path).blockTime

end Answered

def passedTimes (log : List Answered) (address : String) : List Rat :=
  (log.filter fun a => a.isPassed && a.request.address == address).map (·.request.time)

def passedIn (log : List Answered) (address : String) (start stop : Rat) : Nat :=
  ((passedTimes log address).filter fun t => start ≤ t ∧ t ≤ stop).length

/-- What the limiter remembers agrees with the log at every time from `clock` on. -/
structure Remembers (log : List Answered) (l : AddressLimiter Rat String) (clock : Rat) : Prop where
  rules : l.rules = standardRules
  past : ∀ a ∈ log, a.request.time ≤ clock
  counted : ∀ address now (window : Int), clock ≤ now → window ≤ 3600 →
    lately now window (l.requestsOf address) = lately now window (passedTimes log address)
  blocked : ∀ address t, clock < t → (l.blocks.get? address = some t ↔
    ∃ a ∈ log, a.hasExceeded = true ∧ a.request.address = address ∧ a.blockEnd = t)

theorem remembers_nil (clock : Rat) : Remembers [] {} clock where
  rules := rfl
  past := by simp
  counted := by simp [requestsOf, passedTimes]
  blocked := by simp

variable {clock : Rat} {requests : List Request} {log : List Answered} {a : Answered}

theorem Remembers.wait (h : Remembers log l clock) (hle : clock ≤ now) : Remembers log l now where
  rules := h.rules
  past a ha := (h.past a ha).trans hle
  counted address later window hl := h.counted address later window (hle.trans hl)
  blocked address t ht := h.blocked address t (hle.trans_lt ht)

theorem lately_append (window : Int) (before after : List Rat) :
    lately now window (before ++ after) = lately now window before ++ lately now window after := filter_append ..

theorem lately_lately {window longest : Int} (hle : clock ≤ now) (hw : window ≤ longest)
    (times : List Rat) : lately now window (lately clock longest times) = lately now window times := by
  unfold lately
  rw [filter_filter]
  apply filter_congr
  intro t _
  have hw' : (window : Rat) ≤ longest := by exact_mod_cast hw
  apply Bool.eq_iff_iff.mpr
  simp only [Bool.and_eq_true, decide_eq_true_eq, and_iff_left_iff_imp]
  intro ht
  linarith

theorem passedTimes_append (log : List Answered) (a : Answered) (address : String) :
    passedTimes (log ++ [a]) address = passedTimes log address ++
      if a.isPassed ∧ a.request.address = address then [a.request.time] else [] := by
  by_cases ha : a.isPassed ∧ a.request.address = address
  · simp [passedTimes, ha]
  · have hb : (a.isPassed && a.request.address == address) = false := by
      simpa using ha
    simp [passedTimes, ha]

section Step

variable {log : List Answered} {clock : Rat}

theorem Remembers.passedTimes_le (h : Remembers log l clock) (ht : t ∈ passedTimes log address) : t ≤ clock := by
  simp only [passedTimes, mem_map, mem_filter] at ht
  obtain ⟨a, ⟨ha, _⟩, rfl⟩ := ht
  exact h.past a ha

theorem Remembers.length_lately (h : Remembers log l now) (address : String) {window : Int} (hw : window ≤ 3600) :
    (lately now window (l.requestsOf address)).length = passedIn log address (now - window) now := by
  rw [h.counted address now window le_rfl hw]
  congr 1
  apply filter_congr
  intro t ht
  have hle := h.passedTimes_le ht
  apply decide_eq_decide.mpr
  constructor
  · intro hh
    exact ⟨by linarith, hle⟩
  · rintro ⟨hh, _⟩
    linarith

variable {a : Answered}

theorem Remembers.past_append (h : Remembers log l a.request.time) :
    ∀ b ∈ log ++ [a], b.request.time ≤ a.request.time := by
  intro b hb
  rcases mem_append.mp hb with hb | hb
  · exact h.past b hb
  · rw [mem_singleton.mp hb]

theorem metBlock_iff : a.metBlock ↔ ∃ t, a.met.blockEnd? a.request.time a.request.address = some t :=
  Option.isSome_iff_exists

theorem metBlock_eq_false_iff : a.metBlock = false ↔ a.met.blockEnd? a.request.time a.request.address = none :=
  Option.isSome_eq_false_iff.trans Option.isNone_iff_eq_none

theorem isRefused_iff {v : Verdict} (h : a.answer = .ok v) : a.isRefused ↔ a.isPassed = false := by
  simp [isRefused, isPassed, h]

structure Judged (log : List Answered) (a : Answered) : Prop where
  passed_iff : a.isPassed = true ↔ a.metBlock = false ∧
    (passedIn log a.request.address (a.request.time - (figuresOf a.request.path).window)
      a.request.time : Int) + 1 ≤ (figuresOf a.request.path).requests
  refused_iff : a.isRefused = true ↔ a.isPassed = false
  metBlock_iff : a.metBlock = true ↔ ∃ b ∈ log, b.hasExceeded = true ∧
    b.request.address = a.request.address ∧ a.request.time < b.blockEnd

theorem Remembers.metBlock_iff (h : Remembers log a.met a.request.time) : a.metBlock ↔ ∃ b ∈ log, b.hasExceeded ∧
      b.request.address = a.request.address ∧ a.request.time < b.blockEnd := by
  rw [Limit.metBlock_iff]
  constructor
  · rintro ⟨t, ht⟩
    obtain ⟨hget, hlt⟩ := blockEnd?_eq_some.mp ht
    obtain ⟨b, hb, he, hx, rfl⟩ := (h.blocked _ t hlt).mp hget
    exact ⟨b, hb, he, hx, hlt⟩
  · rintro ⟨b, hb, he, hx, hlt⟩
    exact ⟨b.blockEnd, blockEnd?_eq_some.mpr ⟨(h.blocked _ _ hlt).mpr ⟨b, hb, he, hx, rfl⟩, hlt⟩⟩

variable {r : Request}

def Recorded (log : List Answered) (l : AddressLimiter Rat String) (r : Request) : Prop :=
  let a : Answered := ⟨r, l, (l.handle r.time r.address r.path).1⟩
  Judged log a ∧ Remembers (log ++ [a]) (l.handle r.time r.address r.path).2 r.time

theorem Remembers.step (h : Remembers log l r.time) : Recorded log l r := by
  obtain ⟨v, next, hh, hhandles⟩ := exists_handles r.path h.rules r.time r.address
  let a : Answered := ⟨r, l, .ok v⟩
  have hmet : a.metBlock = false ↔ l.blockEnd? r.time r.address = none := metBlock_eq_false_iff
  have hexc : a.hasExceeded ↔ v.allowed = false ∧ l.blockEnd? r.time r.address = none := by
    simp [hasExceeded, ← hmet, isRefused, a]
  rw [Recorded, hh]
  refine ⟨⟨?_, isRefused_iff rfl, h.metBlock_iff⟩, hhandles.rules, h.past_append, ?_, ?_⟩
  · change v.allowed ↔ a.metBlock = false ∧ _
    rw [hhandles.passes, hmet, h.length_lately r.address (figuresOf_window_le r.path)]
    rfl
  · intro address now window hle hw
    rw [hhandles.times, passedTimes_append]
    by_cases hx : v.allowed ∧ address = r.address
    · obtain ⟨hv, rfl⟩ := hx
      rw [if_pos ⟨hv, rfl⟩, if_pos ⟨hv, rfl⟩, lately_lately hle hw, lately_append, lately_append,
        h.counted r.address now window hle hw]
    · rw [if_neg hx, if_neg fun hp => hx ⟨hp.1, hp.2.symm⟩, append_nil, h.counted address now window hle hw]
  · intro address u hu
    rw [hhandles.blocks address u hu, h.blocked address u hu, ← hexc]
    simp [a, blockEnd]

end Step

def handled (l : AddressLimiter Rat String) (requests : List Request) : AddressLimiter Rat String :=
  requests.foldl (fun l r => (l.handle r.time r.address r.path).2) l

theorem remembers_handled (h : Remembers log l clock)
    (hstart : ∀ r ∈ requests, clock ≤ r.time) (hclock : requests.Pairwise fun r s => r.time ≤ s.time)
    (hstop : ∀ r ∈ requests, r.time ≤ now) (hnow : clock ≤ now) :
    Remembers (log ++ handleAll l requests) (handled l requests) now := by
  -- On the requests still to come; what is carried along is that the limiter remembers the log so
  -- far.
  induction requests generalizing log l clock with
  | nil => simpa [handleAll, handled] using h.wait hnow
  | cons r rest ih =>
    obtain ⟨-, hnext⟩ := (h.wait (hstart r (by simp))).step
    obtain ⟨hr, hrest⟩ := pairwise_cons.mp hclock
    simpa [handleAll, handled] using
      ih hnext hr hrest (fun s hs => hstop s (by simp [hs])) (hstop r (by simp))

theorem remembers_from_start (hclock : requests.Pairwise fun r s => r.time ≤ s.time)
    (hstop : ∀ r ∈ requests, r.time ≤ now) : Remembers (handleAll {} requests) (handled {} requests) now := by
  cases requests with
  | nil => exact remembers_nil now
  | cons first rest =>
    have hfrom : ∀ r ∈ first :: rest, first.time ≤ r.time := by simpa using (pairwise_cons.mp hclock).1
    simpa using remembers_handled (remembers_nil first.time) hfrom hclock hstop (hstop first (by simp))

variable {earlier later : List Answered}

theorem handleAll_split (hs : handleAll l requests = earlier ++ a :: later) :
    ∃ before r after, requests = before ++ r :: after ∧
      handleAll l before = earlier ∧
        ⟨r, handled l before, ((handled l before).handle r.time r.address r.path).1⟩ = a := by
  induction requests generalizing l earlier with
  | nil => simp [handleAll] at hs
  | cons first rest ih =>
    cases earlier with
    | nil => exact ⟨[], first, rest, rfl, rfl, (List.cons.inj hs).1⟩
    | cons b earlier =>
      obtain ⟨rfl, htail⟩ := List.cons.inj hs
      obtain ⟨before, r, after, rfl, rfl, rfl⟩ := ih htail
      exact ⟨first :: before, r, after, rfl, rfl, rfl⟩

theorem judged_from_start (hclock : requests.Pairwise fun r s => r.time ≤ s.time)
    (hs : handleAll {} requests = earlier ++ a :: later) : Judged earlier a := by
  obtain ⟨before, r, after, rfl, rfl, rfl⟩ := handleAll_split hs
  obtain ⟨hbefore, -, hrest⟩ := pairwise_append.mp hclock
  exact (remembers_from_start hbefore fun s hs => hrest s hs r (by simp)).step.1

/-- With a clock that never goes back, a request is passed on if and only if its address is not
blocked and at most as many requests of the address as its rule allows are passed on in the window
that ends now. A request that is refused because of its rule keeps the address out for the block
time of the rule, whatever the path. -/
theorem handled_within_rules (requests : List Request)
    (hclock : requests.Pairwise fun r s => r.time ≤ s.time) (earlier later : List Answered)
    (a : Answered) (hlog : handleAll {} requests = earlier ++ a :: later) :
    let f := figuresOf a.request.path
    standardRules.get? (ruleOf a.request.path) = some f.rule ∧
    (a.isPassed = true ↔ a.metBlock = false ∧
      (passedIn earlier a.request.address (a.request.time - f.window) a.request.time : Int) + 1 ≤
        f.requests) ∧
    (a.isRefused = true ↔ a.isPassed = false) ∧
    (a.metBlock = true ↔ ∃ b ∈ earlier, b.hasExceeded = true ∧
      b.request.address = a.request.address ∧ a.request.time < b.blockEnd) ∧
    (a.isRefused = true → a.metBlock = false → ∀ c ∈ later, c.request.address = a.request.address →
      c.request.time < a.request.time + f.blockTime → c.isRefused = true) := by
  have hj := judged_from_start hclock hlog
  refine ⟨standardRules_ruleOf _, hj.passed_iff, hj.refused_iff, hj.metBlock_iff, ?_⟩
  intro hrefused hmet c hc hx ht
  obtain ⟨between, rest, rfl⟩ := List.append_of_mem hc
  have hlog' : handleAll {} requests = (earlier ++ a :: between) ++ c :: rest := by simp [hlog]
  have hjc := judged_from_start hclock hlog'
  have hexc : a.hasExceeded = true := by simp [Answered.hasExceeded, hrefused, hmet]
  have hblocked : c.metBlock = true := hjc.metBlock_iff.mpr ⟨a, by simp, hexc, hx.symm, ht⟩
  apply hjc.refused_iff.mpr
  apply Bool.eq_false_iff.mpr
  intro hpassed
  have := (hjc.passed_iff.mp hpassed).1
  simp [hblocked] at this

theorem handled_within_rules_login : ∃ earlier a later,
      handleAll {} (List.replicate 7 ⟨0, "10.0.0.1", "/auth/login"⟩) = earlier ++ a :: later ∧
      (List.replicate 7 (⟨0, "10.0.0.1", "/auth/login"⟩ : Request)).Pairwise
        (fun r s => r.time ≤ s.time) ∧
      earlier.length = 5 ∧ a.isRefused = true ∧ a.metBlock = false ∧ later ≠ [] ∧
      ∀ c ∈ later, c.request.address = a.request.address →
        c.request.time < a.request.time + ((figuresOf a.request.path).blockTime : Rat) →
          c.isRefused = true := by
  let log := handleAll {} (List.replicate 7 ⟨0, "10.0.0.1", "/auth/login"⟩)
  have hclock : (List.replicate 7 (⟨0, "10.0.0.1", "/auth/login"⟩ : Request)).Pairwise
      (fun r s => r.time ≤ s.time) := by simp
  have hsixth : log[5]?.map Answered.isRefused = some true := by decide +kernel
  have hopen : log[5]?.map Answered.metBlock = some false := by decide +kernel
  obtain ⟨a, ha, hrefused⟩ := Option.map_eq_some_iff.mp hsixth
  have hmet : a.metBlock = false := by simpa [ha] using hopen
  obtain ⟨hlen, rfl⟩ := List.getElem?_eq_some_iff.mp ha
  have hlog : log = log.take 5 ++ log[5] :: log.drop 6 := by
    rw [← List.drop_eq_getElem_cons hlen, List.take_append_drop]
  have hfirst : (log.take 5).length = 5 := by decide
  have hrest : log.drop 6 ≠ [] := List.ne_nil_of_length_pos (by decide)
  exact ⟨log.take 5, log[5], log.drop 6, hlog, hclock, hfirst, hrefused, hmet, hrest,
    (handled_within_rules _ hclock _ _ _ hlog).2.2.2.2 hrefused hmet⟩

end CodeAudit.Limit

import Mathlib.Data.List.Basic
import Mathlib.Data.List.Induction
import CodeAudit.Proofs.AddressLimit

/-! Runs of calls to the limits by client. A key that is asked about loses old times, but agrees
with the log of accepted requests on every window that ends now or later. -/

namespace CodeAudit.Limit

open List Time

inductive Ask where
  | add
  | remaining
  | look
  | block (seconds : Value)

structure Call (κ : Type) where
  time : Int
  key : κ
  ask : Ask

variable (start : Int) (times : List Int)

def since : List Int := times.filter fun t => start ≤ t

theorem since_append (before later : List Int) :
    since start (before ++ later) = since start before ++ since start later := filter_append ..

theorem since_since {start first : Int} (h : first ≤ start) (times : List Int) :
    since start (since first times) = since start times := by
  unfold since
  rw [filter_filter]
  apply filter_congr
  intro t _
  apply Bool.eq_iff_iff.mpr
  simp only [Bool.and_eq_true, decide_eq_true_eq]
  omega

theorem length_since_le : (since start times).length ≤ times.length :=
  length_filter_le ..

variable {t : Int}

theorem isOnCalendar_iff : isOnCalendar t ↔ firstMoment ≤ t ∧ t ≤ lastMoment := by simp [isOnCalendar]

theorem later_eq (t span : Int) : later t span = if isOnCalendar (t + span) then .ok (t + span)
      else .error (.overflow "date value out of range") := rfl

namespace ClientLimiter

variable {κ : Type} [BEq κ] (l : ClientLimiter κ)

def fresh (window quota : Int) : ClientLimiter κ := { window := .int window, quota := .int quota }

def next (c : Call κ) : ClientLimiter κ :=
  match c.ask with
  | .add => (l.add c.time c.key).2
  | .remaining => (l.remaining c.time c.key).2
  | .look => (l.isBlocked c.time c.key).2
  | .block seconds => (l.block c.time c.key seconds).toOption.getD l

def after (calls : List (Call κ)) : ClientLimiter κ := calls.foldl next l

def accepts (c : Call κ) : Bool :=
  match c.ask, (l.add c.time c.key).1 with
  | .add, .ok none => true
  | _, _ => false

variable (window now : Int)

def inWindow (key : κ) : List Int := since (now - window * second) (l.requestsOf key)

def pruned (key : κ) : ClientLimiter κ :=
  (l.dropEnded now key).setRequests key (l.inWindow window now key)

structure Figured (window quota : Int) (l : ClientLimiter κ) : Prop where
  window : l.window = .int window
  quota : l.quota = .int quota

def Dated : Prop := (do later now (-(← spanOf (.int window)))) = .ok (now - window * second)

theorem dropEnded_eq (now : Int) (client : κ) : ∃ blocks, l.dropEnded now client = { l with blocks } := by
  unfold dropEnded
  split
  · split_ifs <;> exact ⟨_, rfl⟩
  · exact ⟨_, rfl⟩

theorem block_cases (now : Int) (client : κ) (seconds : Value) :
    (∃ t, l.block now client seconds = .ok { l with blocks := l.blocks.put client t }) ∨
      ∃ f, l.block now client seconds = .error f := by
  unfold block
  cases spanOf seconds with
  | error f => exact .inr ⟨f, rfl⟩
  | ok span =>
    cases h : later now span with
    | error f => exact .inr ⟨f, by simp [h]⟩
    | ok t => exact .inl ⟨t, by simp [h]⟩

variable {l} {c : Call κ}

section Step

variable {window quota now : Int} {key : κ}

theorem spanOf_int : spanOf (.int window) = checkSpan (window * second) := rfl

theorem dated_iff_span :
    Dated window now ↔ spanOf (.int window) = .ok (window * second) ∧ isOnCalendar (now - window * second) := by
  simp only [Dated, spanOf_int, checkSpan]
  split_ifs with hlong
  · simp
  · simp only [ok_bind, later_eq, ← Int.sub_eq_add_neg]
    split_ifs with hcal <;> simp [hcal]

theorem dated_iff (hnow : isOnCalendar now) : Dated window now ↔ isOnCalendar (now - window * second) := by
  rw [dated_iff_span, and_iff_right_of_imp]
  intro hcal
  -- A window that is too long for a span goes back beyond the first moment.
  rw [spanOf_int, checkSpan, if_neg]
  rw [isOnCalendar_iff] at hnow hcal
  simp only [dayMicros, firstMoment, lastMoment] at hnow hcal ⊢
  omega

theorem isBlocked_eq_false_iff : (l.isBlocked now key).1 = false ↔ l.blockEnd? now key = none := by simp [isBlocked]

variable (client : κ)

theorem dropEnded_requests : (l.dropEnded now client).requests = l.requests := by
  obtain ⟨blocks, h⟩ := l.dropEnded_eq now client
  rw [h]

theorem dropEnded_requestsOf : (l.dropEnded now client).requestsOf key = l.requestsOf key := by
  simp only [requestsOf, dropEnded_requests]

theorem block_blockSeconds : l.block now client (.int blockSeconds) =
      if isOnCalendar (now + blockSeconds * second) then
        .ok { l with blocks := l.blocks.put client (now + blockSeconds * second) }
      else .error (.overflow "date value out of range") := by
  have hspan : spanOf (.int blockSeconds) = .ok (blockSeconds * second) := rfl
  simp only [block, hspan, ok_bind, later_eq]
  split_ifs <;> rfl

theorem add_of_blocked (h : l.blockEnd? now key = some t) : l.add now key = (.ok (some (secondsUntil now t)), l) := by
  simp only [add, h]

variable (hl : Figured window quota l)

include hl

theorem Figured.dropEnded (now : Int) (client : κ) : Figured window quota (l.dropEnded now client) := by
  obtain ⟨blocks, h⟩ := l.dropEnded_eq now client
  rw [h]
  exact ⟨hl.window, hl.quota⟩

theorem Figured.pruned (now : Int) (key : κ) : Figured window quota (l.pruned window now key) :=
  ⟨(hl.dropEnded now key).window, (hl.dropEnded now key).quota⟩

theorem recent_of_dated (h : Dated window now) :
    (l.dropEnded now key).recent now key = .ok (l.inWindow window now key) := by
  obtain ⟨hspan, hcal⟩ := dated_iff_span.mp h
  simp only [recent, (hl.dropEnded now key).window, hspan, ok_bind, later_eq, ← Int.sub_eq_add_neg, hcal,
    dropEnded_requestsOf]
  rfl

theorem recent_of_not_dated (h : ¬ Dated window now) (key : κ) :
    ∃ f, (l.dropEnded now key).recent now key = .error f := by
  simp only [dated_iff_span, recent, (hl.dropEnded now key).window, spanOf_int, checkSpan] at h ⊢
  split_ifs at h ⊢ with hlong
  · exact ⟨_, rfl⟩
  · simp [later_eq, ← Int.sub_eq_add_neg, not_and.mp h rfl]

variable (h : l.blockEnd? now key = none)

include h

/-! What one more request of a key comes to. -/

theorem add_of_not_dated (hd : ¬ Dated window now) :
    ∃ f, l.add now key = (.error f, (l.dropEnded now key).setRequests key (l.requestsOf key)) := by
  obtain ⟨f, hf⟩ := recent_of_not_dated hl hd key
  exact ⟨f, by simp only [add, h, serve, hf, dropEnded_requestsOf]⟩

theorem add_of_dated (hd : Dated window now) : l.add now key = if quota ≤ (l.inWindow window now key).length then
        match (l.pruned window now key).block now key (.int blockSeconds) with
        | .ok l => (.ok (some blockSeconds), l)
        | .error f => (.error f, l.pruned window now key)
      else (.ok none, (l.pruned window now key).setRequests key (l.inWindow window now key ++ [now])) := by
  have hpruned : (l.dropEnded now key).setRequests key (l.inWindow window now key) = l.pruned window now key := rfl
  simp only [add, h, serve, recent_of_dated hl hd, hpruned, (hl.pruned now key).quota, Value.atLeast_nat_int]
  by_cases hle : quota ≤ (l.inWindow window now key).length
  · simp only [decide_eq_true hle]
    exact (if_pos hle).symm
  · simp only [decide_eq_false hle]
    exact (if_neg hle).symm

omit h

theorem remaining_cases (now : Int) (key : κ) :
    (∃ t, l.blockEnd? now key = some t ∧ l.remaining now key = (.ok (.int 0, .int (secondsUntil now t)), l)) ∨
    l.blockEnd? now key = none ∧
      (l.requestsOf key = [] ∧ l.remaining now key = (.ok (.int quota, .int window), l.dropEnded now key) ∨
      Dated window now ∧ l.remaining now key =
        (((l.pruned window now key).resetAfter now (l.inWindow window now key)).map fun reset =>
          (.int (quota - (l.inWindow window now key).length), reset), l.pruned window now key) ∨
      ¬ Dated window now ∧ ∃ f, l.remaining now key = (.error f, l.dropEnded now key)) := by
  cases h : l.blockEnd? now key with
  | some t => exact .inl ⟨t, rfl, by simp only [remaining, h]⟩
  | none =>
    refine .inr ⟨rfl, ?_⟩
    simp only [remaining, h, dropEnded_requests]
    cases hk : l.requests.has key with
    | false =>
      have hfigures := hl.dropEnded now key
      simp only [Keyed.has, Option.isSome_eq_false_iff, Option.isNone_iff_eq_none] at hk
      exact .inl ⟨by simp [requestsOf, hk], by simp [hfigures.window, hfigures.quota]⟩
    | true =>
      by_cases hd : Dated window now
      · refine .inr (.inl ⟨hd, ?_⟩)
        simp only [recent_of_dated hl hd]
        change (do
          let reset ← (l.pruned window now key).resetAfter now _
          return (← Value.arith "-" Num.sub (l.pruned window now key).quota _, reset), _) = _
        rw [(hl.pruned now key).quota]
        cases (l.pruned window now key).resetAfter now (l.inWindow window now key) <;> rfl
      · obtain ⟨f, hf⟩ := recent_of_not_dated hl hd key
        exact .inr (.inr ⟨hd, f, by simp [hf]⟩)

theorem accepts_iff : l.accepts c ↔ c.ask = .add ∧ l.blockEnd? c.time c.key = none ∧ Dated window c.time ∧
      ((l.inWindow window c.time c.key).length : Int) < quota := by
  obtain ⟨now, key, ask⟩ := c
  cases ask with
  | add =>
    simp only [accepts]
    cases hb : l.blockEnd? now key with
    | some t => simp [add_of_blocked hb]
    | none =>
      by_cases hd : Dated window now
      · rw [add_of_dated hl hb hd]
        split_ifs with hle
        · have hnot : ¬ ((l.inWindow window now key).length : Int) < quota := by omega
          simp only [hnot]
          cases (l.pruned window now key).block now key (.int blockSeconds) <;> simp
        · simpa [hd] using hle
      · obtain ⟨f, hf⟩ := add_of_not_dated hl hb hd
        simp [hf, hd]
  | _ => simp [accepts]

omit hl

variable [LawfulBEq κ]

theorem requestsOf_setRequests (times : List Int) :
    (l.setRequests client times).requestsOf key = if key == client then times else l.requestsOf key := by
  simp only [requestsOf, setRequests, Keyed.get?_put]
  split_ifs <;> rfl

theorem blockEnd?_dropEnded : (l.dropEnded now client).blockEnd? now key = l.blockEnd? now key := by
  unfold dropEnded
  split
  next t ht =>
    split_ifs with hended
    · simp only [blockEnd?, Keyed.get?_erase]
      by_cases hk : key = client
      · simp [hk, ht, Option.filter, Int.not_lt.mpr hended]
      · simp [hk]
    · rfl
  next => rfl

theorem blockEnd?_put (t : Int) : blockEnd? { l with blocks := l.blocks.put client t } now key =
      if key == client then (if now < t then some t else none) else l.blockEnd? now key := by
  simp only [blockEnd?, Keyed.get?_put]
  by_cases hk : key = client
  · by_cases ht : now < t <;> simp [hk, Option.filter]
  · simp [hk]

theorem requestsOf_pruned : (l.pruned window now key).requestsOf key = l.inWindow window now key := by
  simp [pruned, requestsOf_setRequests]

structure SameButFor (client : κ) (l l' : ClientLimiter κ) : Prop where
  window : l'.window = l.window
  quota : l'.quota = l.quota
  requests : ∀ key, key ≠ client → l'.requests.get? key = l.requests.get? key
  blocks : ∀ key, key ≠ client → l'.blocks.get? key = l.blocks.get? key

omit [LawfulBEq κ] in
theorem SameButFor.refl : SameButFor client l l := ⟨rfl, rfl, fun _ _ => rfl, fun _ _ => rfl⟩

omit [LawfulBEq κ] in
theorem SameButFor.trans {client : κ} {l m n : ClientLimiter κ} (h : SameButFor client l m)
    (h' : SameButFor client m n) : SameButFor client l n where
  window := h'.window.trans h.window
  quota := h'.quota.trans h.quota
  requests key hk := (h'.requests key hk).trans (h.requests key hk)
  blocks key hk := (h'.blocks key hk).trans (h.blocks key hk)

theorem sameButFor_dropEnded (now : Int) : SameButFor client l (l.dropEnded now client) := by
  unfold dropEnded
  split
  · split_ifs
    · exact ⟨rfl, rfl, fun _ _ => rfl, fun key hk => by simp [Keyed.get?_erase, hk]⟩
    · exact .refl client
  · exact .refl client

theorem sameButFor_setRequests (times : List Int) : SameButFor client l (l.setRequests client times) :=
  ⟨rfl, rfl, fun key hk => by simp [setRequests, Keyed.get?_put, hk], fun _ _ => rfl⟩

theorem sameButFor_block {l l' : ClientLimiter κ} {client : κ} {seconds : Value}
    (h : l.block now client seconds = .ok l') : SameButFor client l l' := by
  rcases l.block_cases now client seconds with ⟨t, ht⟩ | ⟨f, hf⟩
  · obtain rfl := Except.ok.inj (ht.symm.trans h)
    exact ⟨rfl, rfl, fun _ _ => rfl, fun key hk => by simp [Keyed.get?_put, hk]⟩
  · simp [hf] at h

theorem sameButFor_add : SameButFor client l (l.add now client).2 := by
  unfold add
  split
  · exact .refl client
  · refine (sameButFor_dropEnded client now).trans ?_
    unfold serve
    split
    · exact sameButFor_setRequests ..
    next times _ =>
      refine (sameButFor_setRequests client times).trans ?_
      dsimp only
      split
      · exact .refl ..
      · exact sameButFor_setRequests ..
      · split
        next h => exact sameButFor_block h
        next => exact .refl ..

theorem sameButFor_remaining : SameButFor client l (l.remaining now client).2 := by
  unfold remaining
  split
  · exact .refl client
  · refine (sameButFor_dropEnded client now).trans ?_
    dsimp only
    split_ifs
    · exact .refl ..
    · split
      · exact .refl ..
      · exact sameButFor_setRequests ..

theorem sameButFor_next : SameButFor c.key l (l.next c) := by
  unfold next
  split
  · exact sameButFor_add ..
  · exact sameButFor_remaining ..
  · exact sameButFor_dropEnded ..
  next seconds _ =>
    cases h : l.block c.time c.key seconds with
    | error f => exact .refl ..
    | ok l' => exact sameButFor_block h

omit [LawfulBEq κ] in
theorem requestsOf_of_sameButFor {client : κ} {l l' : ClientLimiter κ} (h : SameButFor client l l')
    (hk : key ≠ client) : l'.requestsOf key = l.requestsOf key := by
  simp only [requestsOf, h.requests key hk]

include hl

theorem Figured.next (c : Call κ) : Figured window quota (l.next c) :=
  ⟨sameButFor_next.window.trans hl.window, sameButFor_next.quota.trans hl.quota⟩

theorem requestsOf_add (now : Int) (key : κ) :
    (l.accepts ⟨now, key, .add⟩ ∧ (l.add now key).2.requestsOf key = l.inWindow window now key ++ [now]) ∨
    (l.accepts ⟨now, key, .add⟩ = false ∧ ((l.add now key).2.requestsOf key = l.requestsOf key ∨
        (l.add now key).2.requestsOf key = l.inWindow window now key)) := by
  cases hb : l.blockEnd? now key with
  | some t => exact .inr ⟨by simp [accepts, add_of_blocked hb], .inl (by rw [add_of_blocked hb])⟩
  | none =>
    by_cases hd : Dated window now
    · have hadd := add_of_dated hl hb hd
      by_cases hle : quota ≤ (l.inWindow window now key).length
      · rw [block_blockSeconds] at hadd
        refine .inr ⟨?_, .inr ?_⟩
        · simp only [accepts, hadd]
          split_ifs <;> rfl
        · rw [hadd]
          split_ifs <;> exact requestsOf_pruned
      · rw [if_neg hle] at hadd
        exact .inl ⟨by simp [accepts, hadd], by simp [hadd, requestsOf_setRequests]⟩
    · obtain ⟨f, hf⟩ := add_of_not_dated hl hb hd
      exact .inr ⟨by simp [accepts, hf], .inl (by simp [hf, requestsOf_setRequests])⟩

theorem requestsOf_remaining (now : Int) (key : κ) : (l.remaining now key).2.requestsOf key = l.requestsOf key ∨
    (l.remaining now key).2.requestsOf key = l.inWindow window now key := by
  rcases remaining_cases hl now key with ⟨t, -, h⟩ | ⟨-, ⟨-, h⟩ | ⟨-, h⟩ | ⟨-, f, h⟩⟩ <;>
    simp [h, dropEnded_requestsOf, requestsOf_pruned]

theorem next_cases (c : Call κ) (key : κ) :
    (c.key = key ∧ l.accepts c ∧ (l.next c).requestsOf key = l.inWindow window c.time key ++ [c.time]) ∨
    (¬ (c.key = key ∧ l.accepts c) ∧ ((l.next c).requestsOf key = l.requestsOf key ∨
        (l.next c).requestsOf key = l.inWindow window c.time key)) := by
  by_cases hk : c.key = key
  · obtain ⟨now, client, ask⟩ := c
    obtain rfl : client = key := hk
    cases ask with
    | add =>
      rcases requestsOf_add hl now client with ⟨ha, hr⟩ | ⟨ha, hr⟩
      · exact .inl ⟨rfl, ha, hr⟩
      · exact .inr ⟨by simp [ha], hr⟩
    | remaining => exact .inr ⟨by simp [accepts], requestsOf_remaining hl now client⟩
    | look => exact .inr ⟨by simp [accepts], .inl (dropEnded_requestsOf client)⟩
    | block seconds =>
      refine .inr ⟨by simp [accepts], .inl ?_⟩
      rcases l.block_cases now client seconds with ⟨t, h⟩ | ⟨f, h⟩ <;> simp only [next, h] <;> rfl
  · exact .inr ⟨fun h => hk h.1, .inl (requestsOf_of_sameButFor sameButFor_next fun h => hk h.symm)⟩

theorem since_next (c : Call κ) (key : κ) {start : Int} (hstart : c.time - window * second ≤ start) :
    since start ((l.next c).requestsOf key) = since start (l.requestsOf key) ++
      if c.key == key && l.accepts c then since start [c.time] else [] := by
  rcases next_cases hl c key with ⟨hk, ha, hr⟩ | ⟨hno, hr | hr⟩
  · simp [hr, hk, ha, inWindow, since_append, since_since hstart]
  all_goals
    have hoff : (c.key == key && l.accepts c) = false := by
      simpa using hno
    simp [hr, hoff, inWindow, since_since hstart]

end Step

/-! Runs of calls. -/

def acceptedTimes (l : ClientLimiter κ) (key : κ) : List (Call κ) → List Int
  | [] => []
  | c :: rest => (if c.key == key && l.accepts c then [c.time] else []) ++ (l.next c).acceptedTimes key rest

def between (start stop : Int) (times : List Int) : List Int := times.filter fun t => start ≤ t ∧ t ≤ stop

theorem acceptedTimes_append (l : ClientLimiter κ) (key : κ) (calls : List (Call κ)) (c : Call κ) :
    l.acceptedTimes key (calls ++ [c]) = l.acceptedTimes key calls ++
      if c.key == key && (l.after calls).accepts c then [c.time] else [] := by
  induction calls generalizing l with
  | nil => simp [acceptedTimes, after]
  | cons d rest ih =>
    rw [cons_append, acceptedTimes, ih, acceptedTimes, append_assoc]
    rfl

theorem after_append (l : ClientLimiter κ) (calls : List (Call κ)) (c : Call κ) :
    l.after (calls ++ [c]) = (l.after calls).next c := by
  simp [after]

section Run

variable [LawfulBEq κ] {l : ClientLimiter κ} {window quota clock : Int} {key : κ} {accepted : List Int}

/-- What is remembered of a key agrees with the log on every window that ends at `clock` or later,
and the log keeps to the quota. -/
structure Remembers (window quota : Int) (key : κ) (accepted : List Int) (l : ClientLimiter κ) (clock : Int) :
    Prop where
  figured : Figured window quota l
  past : ∀ t ∈ accepted, t ≤ clock
  counted : ∀ start, clock - window * second ≤ start → since start (l.requestsOf key) = since start accepted
  bounded : ∀ start, ((between start (start + window * second) accepted).length : Int) ≤ max 0 quota

omit [LawfulBEq κ] in
theorem remembers_fresh (window quota : Int) (key : κ) (clock : Int) :
    Remembers window quota key [] (fresh window quota) clock where
  figured := ⟨rfl, rfl⟩
  past := by simp
  counted := by simp [fresh, requestsOf]
  bounded := by simp [between]

variable (h : Remembers window quota key accepted l clock)

include h

omit [LawfulBEq κ] in
theorem Remembers.wait {now : Int} (hle : clock ≤ now) : Remembers window quota key accepted l now where
  figured := h.figured
  past t ht := (h.past t ht).trans hle
  counted start hs := h.counted start (by omega)
  bounded := h.bounded

omit [LawfulBEq κ] in
theorem Remembers.room (hc : clock ≤ c.time)
    (hk : c.key = key) (ha : l.accepts c) : ((since (c.time - window * second) accepted).length : Int) < quota := by
  have hroom := ((accepts_iff h.figured).mp ha).2.2.2
  rw [hk, inWindow, h.counted _ (by omega)] at hroom
  exact hroom

theorem Remembers.next (hc : clock ≤ c.time) :
    Remembers window quota key (accepted ++ if c.key == key && l.accepts c then [c.time] else []) (l.next c)
      c.time := by
  refine ⟨h.figured.next c, ?_, ?_, ?_⟩
  · intro t ht
    rcases mem_append.mp ht with ht | ht
    · exact (h.past t ht).trans hc
    · split_ifs at ht
      · simp_all
      · simp at ht
  · intro start hs
    rw [since_next h.figured c key hs, h.counted start (by omega), since_append]
    split_ifs <;> rfl
  · intro start
    have hold := h.bounded start
    split_ifs with ha
    · simp only [Bool.and_eq_true, beq_iff_eq] at ha
      have hroom := h.room hc ha.1 ha.2
      by_cases hin : start ≤ c.time ∧ c.time ≤ start + window * second
      · -- The window that ends with the call holds all that the interval held before.
        have hsub : (between start (start + window * second) accepted).length ≤
            (since (c.time - window * second) accepted).length := by
          apply List.Sublist.length_le
          apply monotone_filter_right
          intro t ht
          simp only [decide_eq_true_eq] at ht ⊢
          omega
        have hlen : (between start (start + window * second) (accepted ++ [c.time])).length =
            (between start (start + window * second) accepted).length + 1 := by
          simp [between, hin]
        omega
      · have hlen : between start (start + window * second) (accepted ++ [c.time]) =
            between start (start + window * second) accepted := by
          simp [between, hin]
        rw [hlen]
        exact hold
    · simpa using hold

omit h

theorem remembers_after (window quota : Int) (key : κ) {calls : List (Call κ)} {now : Int}
    (hclock : calls.Pairwise fun a b => a.time ≤ b.time) (hnow : ∀ c ∈ calls, c.time ≤ now) :
    Remembers window quota key ((fresh window quota).acceptedTimes key calls)
      ((fresh window quota).after calls) now := by
  induction calls using List.reverseRecOn generalizing now with
  | nil => exact remembers_fresh window quota key now
  | append_singleton calls c ih =>
    obtain ⟨hcalls, -, hlast⟩ := pairwise_append.mp hclock
    have hbefore : ∀ d ∈ calls, d.time ≤ c.time := fun d hd => hlast d hd c (by simp)
    rw [acceptedTimes_append, after_append]
    exact ((ih hcalls hbefore).next le_rfl).wait (hnow c (by simp))

/-- With a clock that never goes back, no closed interval as long as the window holds more accepted
requests of a key than the quota. A request is accepted if and only if its key is not blocked and
fewer than the quota were accepted in the window that ends with it, where the calendar has its
start. -/
theorem accepted_within_quota (window quota : Int) (calls : List (Call κ))
    (hclock : calls.Pairwise fun a b => a.time ≤ b.time) :
    (∀ key start, ((between start (start + window * second)
      ((fresh window quota).acceptedTimes key calls)).length : Int) ≤ max 0 quota) ∧
    ∀ earlier c rest, calls = earlier ++ c :: rest → c.ask = .add →
      (((fresh window quota).after earlier).accepts c = true ↔
        (((fresh window quota).after earlier).isBlocked c.time c.key).1 = false ∧
          Dated window c.time ∧
        ((between (c.time - window * second) c.time
          ((fresh window quota).acceptedTimes c.key earlier)).length : Int) < quota) := by
  constructor
  · intro key start
    cases calls using List.reverseRecOn with
    | nil => exact (remembers_fresh window quota key 0).bounded start
    | append_singleton calls c =>
      have hlast : ∀ d ∈ calls ++ [c], d.time ≤ c.time := by
        intro d hd
        rcases List.mem_append.mp hd with hd | hd
        · exact (List.pairwise_append.mp hclock).2.2 d hd c (by simp)
        · rw [List.mem_singleton.mp hd]
      exact (remembers_after window quota key hclock hlast).bounded start
  · rintro earlier c rest rfl hask
    obtain ⟨hearlier, -, hbefore⟩ := List.pairwise_append.mp hclock
    have h := remembers_after window quota c.key hearlier fun d hd => hbefore d hd c (by simp)
    have hwindow : between (c.time - window * second) c.time ((fresh window quota).acceptedTimes c.key earlier) =
        since (c.time - window * second) ((fresh window quota).acceptedTimes c.key earlier) := by
      apply List.filter_congr
      intro t ht
      simp [h.past t ht]
    rw [accepts_iff h.figured, inWindow, h.counted _ le_rfl, hwindow, isBlocked_eq_false_iff]
    simp [hask]

theorem accepted_within_quota_boundary : let calls : List (Call String) :=
      [⟨0, "a", .add⟩, ⟨0, "b", .add⟩, ⟨5, "a", .add⟩, ⟨10000000, "a", .add⟩]
    (calls.Pairwise fun a b => a.time ≤ b.time) ∧ (fresh 10 2).acceptedTimes "a" calls = [0, 5] ∧
      ((between 0 (0 + 10 * second) ((fresh 10 2).acceptedTimes "a" calls)).length : Int) ≤ max 0 2 := by
  intro calls
  have hclock : calls.Pairwise fun a b => a.time ≤ b.time := by simp [calls]
  exact ⟨hclock, by decide, (accepted_within_quota 10 2 calls hclock).1 "a" 0⟩

end Run

end ClientLimiter

end CodeAudit.Limit

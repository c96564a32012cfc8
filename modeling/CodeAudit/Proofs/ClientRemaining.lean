import CodeAudit.Proofs.ClientLimit

/-! The number of requests that a key is said to have left is the number that it gets at that
instant, as far as the calendar reaches. -/

namespace CodeAudit.Limit

open List Time Call

variable {κ : Type} [BEq κ]

def Call.isAddOf (key : κ) (c : Call κ) : Bool :=
  match c.ask with
  | .add => c.key == key
  | _ => false

def Call.isBlockOf (key : κ) (c : Call κ) : Bool :=
  match c.ask with
  | .block _ => c.key == key
  | _ => false

namespace ClientLimiter

variable {l : ClientLimiter κ} {window quota now : Int} {key : κ} {n : Nat} {left reset : Value}

theorem remaining_eq_ok (hl : Figured window quota l) (hopen : l.blockEnd? now key = none)
    (ha : (l.remaining now key).1 = .ok (left, reset)) :
    left = .int (quota - (l.inWindow window now key).length) ∧ (l.inWindow window now key = [] ∨
      Dated window now ∧ (l.pruned window now key).resetAfter now (l.inWindow window now key) = .ok reset) := by
  rcases remaining_cases hl now key with ⟨t, hb, -⟩ | ⟨-, ⟨hnone, h⟩ | ⟨hd, h⟩ | ⟨-, f, h⟩⟩
  · simp [hb] at hopen
  · have hempty : l.inWindow window now key = [] := by simp [inWindow, hnone, since]
    simp_all
  · cases hr : (l.pruned window now key).resetAfter now (l.inWindow window now key) <;> simp_all [Except.map]
  · simp [h] at ha

structure Tidy (window quota latest : Int) (l : ClientLimiter κ) : Prop where
  figured : Figured window quota l
  few : ∀ key, ((l.requestsOf key).length : Int) ≤ max 0 quota
  past : ∀ key, ∀ t ∈ l.requestsOf key, t ≤ latest

theorem Tidy.left_le (h : Tidy window quota now l) (hquota : 0 ≤ quota)
    (ha : (l.remaining now key).1 = .ok (left, reset)) : ∃ n : Nat, left = .nat n ∧ (n : Int) ≤ quota := by
  rcases remaining_cases h.figured now key with ⟨t, -, hb⟩ | ⟨hopen, -⟩
  · rw [hb] at ha
    obtain ⟨rfl, -⟩ := Prod.mk.inj (Except.ok.inj ha)
    exact ⟨0, rfl, hquota⟩
  · have hfew := h.few key
    have hkept : (l.inWindow window now key).length ≤ (l.requestsOf key).length := length_since_le ..
    rw [(remaining_eq_ok h.figured hopen ha).1]
    refine ⟨(quota - (l.inWindow window now key).length).toNat, ?_, by omega⟩
    rw [Value.nat, Int.toNat_of_nonneg (by omega)]

theorem Tidy.answers (h : Tidy window quota now l) (hnow : isOnCalendar now)
    (hback : isOnCalendar (now - window * second)) (hahead : isOnCalendar (now + window * second)) :
    ∃ a, (l.remaining now key).1 = .ok a := by
  have hd := (dated_iff hnow).mpr hback
  rcases remaining_cases h.figured now key with ⟨t, -, ha⟩ | ⟨-, ⟨-, ha⟩ | ⟨-, ha⟩ | ⟨hnot, -⟩⟩
  · exact ⟨_, by rw [ha]⟩
  · exact ⟨_, by rw [ha]⟩
  · rw [ha]
    unfold resetAfter
    cases hmin : (l.inWindow window now key).min? with
    | none => exact ⟨_, rfl⟩
    | some oldest =>
      have hmem := min?_mem hmin
      have hold := h.past key oldest (mem_of_mem_filter hmem)
      have hstart : now - window * second ≤ oldest := by simpa using of_mem_filter hmem
      have hcal : isOnCalendar (oldest + window * second) := by
        rw [isOnCalendar_iff] at hnow hahead ⊢
        omega
      simp only [(h.figured.pruned now key).window, (dated_iff_span.mp hd).1, ok_bind, later_eq, hcal]
      exact ⟨_, rfl⟩
  · exact absurd hd hnot

/-- How a key stands that had `n` requests left at an instant and asked for some since: it has the
rest left, or it asked for more and is blocked. -/
inductive Standing (window quota now : Int) (key : κ) (n : Nat) (l : ClientLimiter κ) : Nat → Prop where
  | free {asked : Nat} : asked ≤ n → l.blockEnd? now key = none →
      (l.inWindow window now key).length + (n - asked : Int) = quota →
      Standing window quota now key n l asked
  | shut {asked : Nat} : n < asked → l.blockEnd? now key = some (now + blockSeconds * second) →
      Standing window quota now key n l asked

theorem add_of_standing_room {asked : Nat} (hl : Figured window quota l) (hd : Dated window now) (hlt : asked < n)
    (h : Standing window quota now key n l asked) : (l.add now key).1 = .ok none := by
  cases h with
  | free _ hopen hcount => rw [add_of_dated hl hopen hd, if_neg (by omega)]
  | shut hgt _ => omega

variable {t : Int}

theorem Dated.wait (h : Dated window now) (hwindow : 0 ≤ window) (hle : now ≤ t)
    (hlater : isOnCalendar t) : Dated window t := by
  have hstart := (dated_iff_span.mp h).2
  have hlength : 0 ≤ window * second := Int.mul_nonneg hwindow (by decide)
  rw [dated_iff hlater]
  rw [isOnCalendar_iff] at hstart hlater ⊢
  omega

theorem blockEnd?_wait (h : l.blockEnd? now key = none) (hle : now ≤ t) : l.blockEnd? t key = none := by
  simp only [blockEnd?, Option.filter_eq_none_iff, decide_eq_true_eq] at h ⊢
  intro stop hstop
  have hended := h stop hstop
  omega

theorem accepts_add_iff : l.accepts ⟨now, key, .add⟩ ↔ (l.add now key).1 = .ok none := by
  unfold accepts
  split <;> simp_all

theorem oldest_of_spent (hl : Figured window quota l) (hquota : 1 ≤ quota) (hopen : l.blockEnd? now key = none)
    {r : Int} (ha : (l.remaining now key).1 = .ok (.int 0, .int r)) : Dated window now ∧
      ((l.inWindow window now key).length : Int) = quota ∧ ∃ oldest, (l.inWindow window now key).min? = some oldest ∧
        r = secondsUntil now (oldest + window * second) := by
  obtain ⟨hleft, hreset⟩ := remaining_eq_ok hl hopen ha
  have hcount := Value.int.inj hleft
  have hne : l.inWindow window now key ≠ [] := by
    rintro hnone
    simp only [hnone, length_nil] at hcount
    omega
  obtain ⟨hd, hreset⟩ := hreset.resolve_left hne
  refine ⟨hd, by omega, ?_⟩
  cases hmin : (l.inWindow window now key).min? with
  | none => exact absurd (min?_eq_none_iff.mp hmin) hne
  | some oldest =>
    simp only [resetAfter, hmin, (hl.pruned now key).window, (dated_iff_span.mp hd).1, ok_bind, later_eq] at hreset
    split_ifs at hreset
    · exact ⟨oldest, rfl, (Value.int.inj (Except.ok.inj hreset)).symm⟩
    · cases hreset

theorem length_since_lt_iff {times : List Int} {oldest : Int} (h : times.min? = some oldest) (start : Int) :
    (since start times).length < times.length ↔ oldest < start := by
  rw [since, length_filter_lt_length_iff_exists]
  constructor
  · rintro ⟨t, ht, hlt⟩
    have hle := (min?_eq_some_iff.mp h).2 t ht
    simp only [decide_eq_true_eq] at hlt
    omega
  · intro hlt
    exact ⟨oldest, min?_mem h, by simpa using hlt⟩

theorem secondsUntil_lt_iff (h : now ≤ t) (k : Nat) : secondsUntil now t < k ↔ t < now + k * second := by
  rw [secondsUntil, Int.tdiv_eq_ediv_of_nonneg (by omega), Int.ediv_lt_iff_lt_mul (by decide)]
  omega

variable [LawfulBEq κ] {c : Call κ} {calls : List (Call κ)} {latest : Int}

theorem Tidy.next (h : Tidy window quota latest l) (hc : c.time ≤ latest) : Tidy window quota latest (l.next c) := by
  have hsub (key : κ) (start t : Int) (ht : t ∈ since start (l.requestsOf key)) : t ≤ latest :=
    h.past key t (mem_of_mem_filter ht)
  refine ⟨h.figured.next c, fun key => ?_, fun key t ht => ?_⟩
  · have hfew := h.few key
    have hkept : (l.inWindow window c.time key).length ≤ (l.requestsOf key).length := length_since_le ..
    rcases next_cases h.figured c key with ⟨rfl, ha, hr⟩ | ⟨-, hr | hr⟩
    · have hroom := ((accepts_iff h.figured).mp ha).2.2.2
      rw [hr, length_append, length_singleton]
      omega
    · rw [hr]
      exact hfew
    · rw [hr]
      omega
  · rcases next_cases h.figured c key with ⟨rfl, ha, hr⟩ | ⟨-, hr | hr⟩
    · rw [hr] at ht
      rcases mem_append.mp ht with ht | ht
      · exact hsub _ _ t ht
      · rw [mem_singleton.mp ht]
        exact hc
    · exact h.past key t (hr ▸ ht)
    · exact hsub _ _ t (hr ▸ ht)

theorem tidy_after (window quota : Int)
    (h : ∀ c ∈ calls, c.time ≤ latest) : Tidy window quota latest ((fresh window quota).after calls) := by
  induction calls using reverseRecOn with
  | nil => exact ⟨⟨rfl, rfl⟩, by simp [after, fresh, requestsOf], by simp [after, fresh, requestsOf]⟩
  | append_singleton calls c ih =>
    rw [after_append]
    exact (ih fun d hd => h d (by simp [hd])).next (h c (by simp))

theorem inWindow_next (hl : Figured window quota l) (c : Call κ) (key : κ) :
    (l.next c).inWindow window c.time key = l.inWindow window c.time key ++
      if c.key == key && l.accepts c then since (c.time - window * second) [c.time] else [] :=
  since_next hl c key le_rfl

theorem blockEnd?_remaining (hl : Figured window quota l) (now : Int) (client key : κ) :
    (l.remaining now client).2.blockEnd? now key = l.blockEnd? now key := by
  rcases remaining_cases hl now client with ⟨t, -, h⟩ | ⟨-, ⟨-, h⟩ | ⟨-, h⟩ | ⟨-, f, h⟩⟩ <;> rw [h]
  all_goals exact blockEnd?_dropEnded client

theorem blockEnd?_next (hl : Figured window quota l) (hadd : c.isAddOf key = false)
    (hblock : c.isBlockOf key = false) : (l.next c).blockEnd? c.time key = l.blockEnd? c.time key := by
  by_cases hk : c.key = key
  · obtain ⟨now, client, ask⟩ := c
    obtain rfl : client = key := hk
    cases ask with
    | add => simp [isAddOf] at hadd
    | remaining => exact blockEnd?_remaining hl now client client
    | look => exact blockEnd?_dropEnded client
    | block seconds => simp [isBlockOf] at hblock
  · simp only [blockEnd?, sameButFor_next.blocks key fun h => hk h.symm]

section Instant

variable {n asked : Nat} (hl : Figured window quota l)

include hl

theorem add_of_standing_full (hd : Dated window now)
    (hend : isOnCalendar (now + blockSeconds * second)) (hle : n ≤ asked)
    (h : Standing window quota now key n l asked) : (l.add now key).1 = .ok (some blockSeconds) ∧
      (l.add now key).2.blockEnd? now key = some (now + blockSeconds * second) := by
  cases h with
  | free hge hopen hcount =>
    have hlater : now < now + blockSeconds * second := by
      simp only [blockSeconds, second]
      omega
    rw [add_of_dated hl hopen hd, if_pos (by omega), block_blockSeconds, if_pos hend]
    exact ⟨rfl, by simp [blockEnd?_put, hlater]⟩
  | shut _ hshut =>
    rw [add_of_blocked hshut]
    refine ⟨?_, hshut⟩
    simp [secondsUntil, second]

theorem Standing.add (hwindow : 0 ≤ window) (hd : Dated window now)
    (hend : asked + 1 ≤ n ∨ isOnCalendar (now + blockSeconds * second))
    (h : Standing window quota now key n l asked) :
    Standing window quota now key n (l.add now key).2 (asked + 1) := by
  rcases Nat.lt_or_ge asked n with hlt | hge
  · have hok := add_of_standing_room hl hd hlt h
    have haccepts : l.accepts ⟨now, key, .add⟩ := by simp [accepts, hok]
    have hnow : since (now - window * second) [now] = [now] := by
      have : 0 ≤ window * second := Int.mul_nonneg hwindow (by decide)
      simp [since]
      omega
    cases h with
    | free _ hopen hcount =>
      refine .free hlt ?_ ?_
      · rw [add_of_dated hl hopen hd, if_neg (by omega)]
        exact (blockEnd?_dropEnded key).trans hopen
      · have hkept := inWindow_next hl ⟨now, key, .add⟩ key
        simp only [next, haccepts, beq_self_eq_true, Bool.and_self, if_true, hnow] at hkept
        rw [hkept, length_append, length_singleton]
        omega
    | shut hgt _ => omega
  · have hcal := hend.resolve_left (by omega)
    exact .shut (by omega) (add_of_standing_full hl hd hcal hge h).2

theorem Standing.next (hwindow : 0 ≤ window) (hd : Dated window now)
    (hc : c.time = now) (hblock : c.isBlockOf key = false)
    (hend : asked + (if c.isAddOf key then 1 else 0) ≤ n ∨ isOnCalendar (now + blockSeconds * second))
    (h : Standing window quota now key n l asked) :
    Standing window quota now key n (l.next c) (asked + if c.isAddOf key then 1 else 0) := by
  subst hc
  cases hadd : c.isAddOf key with
  | true =>
    obtain ⟨now, client, ask⟩ := c
    cases ask with
    | add =>
      obtain rfl : client = key := by simpa [isAddOf] using hadd
      rw [hadd] at hend
      exact h.add hl hwindow hd hend
    | _ => simp [isAddOf] at hadd
  | false =>
    have hquiet : (c.key == key && l.accepts c) = false := by
      rw [Bool.eq_false_iff]
      intro hboth
      simp only [Bool.and_eq_true] at hboth
      have hask := ((accepts_iff hl).mp hboth.2).1
      simp [isAddOf, hask, hboth.1] at hadd
    have hkept := inWindow_next hl c key
    simp only [hquiet, Bool.false_eq_true, if_false, append_nil] at hkept
    have hsame := blockEnd?_next hl hadd hblock
    cases h with
    | free hge hopen hcount => exact .free hge (hsame.trans hopen) (by rw [hkept]; exact hcount)
    | shut hgt hshut => exact .shut hgt (hsame.trans hshut)

theorem Figured.after (calls : List (Call κ)) : Figured window quota (l.after calls) := by
  induction calls using reverseRecOn with
  | nil => exact hl
  | append_singleton calls c ih =>
    rw [after_append]
    exact ih.next c

def AtInstant (now : Int) (key : κ) (calls : List (Call κ)) : Prop :=
  ∀ c ∈ calls, c.time = now ∧ c.isBlockOf key = false

theorem standing_after (hwindow : 0 ≤ window) (hd : Dated window now) (hcalls : AtInstant now key calls)
    (hend : calls.countP (isAddOf key) ≤ n ∨ isOnCalendar (now + blockSeconds * second))
    (h : Standing window quota now key n l 0) :
    Standing window quota now key n (l.after calls) (calls.countP (isAddOf key)) := by
  induction calls using reverseRecOn with
  | nil => exact h
  | append_singleton calls c ih =>
    obtain ⟨hc, hblock⟩ := hcalls c (by simp)
    simp only [countP_append, countP_singleton] at hend ⊢
    have hbefore := ih (fun d hd => hcalls d (by simp [hd])) (hend.imp_left (by omega))
    rw [after_append]
    exact hbefore.next (hl.after calls) hwindow hd hc hblock hend

end Instant

/-- Whatever calls were made at this instant, the next request of the key is accepted as long as it
asked for fewer than `n`; after that it is refused for five minutes and the key is blocked. -/
def Grants (l : ClientLimiter κ) (now : Int) (key : κ) (n : Nat) : Prop :=
  ∀ calls, AtInstant now key calls →
    (calls.countP (Call.isAddOf key) < n → ((l.after calls).add now key).1 = .ok none) ∧
    (n ≤ calls.countP (Call.isAddOf key) → ((l.after calls).add now key).1 = .ok (some 300) ∧
      (((l.after calls).add now key).2.isBlocked now key).1 = true)

theorem grants_of_onCalendar (hl : Figured window quota l) (hwindow : 0 ≤ window) (hd : Dated window now)
    (hend : isOnCalendar (now + blockSeconds * second)) (h : Standing window quota now key n l 0) :
    l.Grants now key n := by
  intro calls hcalls
  have hfigured := hl.after calls
  have hstanding := standing_after hl hwindow hd hcalls (.inr hend) h
  refine ⟨fun hlt => add_of_standing_room hfigured hd hlt hstanding, fun hge => ?_⟩
  obtain ⟨hanswer, hshut⟩ := add_of_standing_full hfigured hd hend hge hstanding
  exact ⟨hanswer, by simp [isBlocked, hshut]⟩

omit [LawfulBEq κ] in
theorem Grants.dated (hl : Figured window quota l) (h : Standing window quota now key n l 0)
    (hg : l.Grants now key n) : Dated window now := by
  by_contra hd
  cases h with
  | free _ hopen _ =>
    obtain ⟨hroom, hfull⟩ := hg [] (by simp [AtInstant])
    obtain ⟨f, hf⟩ := add_of_not_dated hl hopen hd
    simp only [after, foldl_nil, hf, reduceCtorEq, false_and, imp_false] at hroom hfull
    omega
  | shut hgt _ => omega

theorem Grants.blockEnd_onCalendar (hl : Figured window quota l) (hwindow : 0 ≤ window)
    (h : Standing window quota now key n l 0) (hg : l.Grants now key n) :
    isOnCalendar (now + blockSeconds * second) := by
  have hd := hg.dated hl h
  let calls : List (Call κ) := replicate n ⟨now, key, .add⟩
  have hcalls : AtInstant now key calls := by
    intro c hc
    rw [eq_of_mem_replicate hc]
    exact ⟨rfl, rfl⟩
  have hcount : calls.countP (isAddOf key) = n := by simp [calls, countP_replicate, isAddOf]
  have hstanding := standing_after hl hwindow hd hcalls (.inl hcount.le) h
  obtain ⟨hanswer, -⟩ := (hg calls hcalls).2 hcount.ge
  cases hstanding with
  | free _ hopen hleft =>
    rw [add_of_dated (hl.after calls) hopen hd, if_pos (by omega), block_blockSeconds] at hanswer
    split_ifs at hanswer with hcal
    exact hcal
  | shut hgt _ => omega

/-- What is said to be left to a key is between zero and the quota. A key that is not blocked gets
exactly so many requests at that instant, and then is refused and blocked, if and only if the
calendar has the start of the window and the end of that block. -/
theorem remaining_granted {window quota : Int} (hwindow : 0 ≤ window) (hquota : 0 ≤ quota)
    (past : List (Call κ)) {now : Int} (hnow : isOnCalendar now = true)
    (hpast : ∀ c ∈ past, c.time ≤ now) (key : κ) :
    let l := (fresh window quota).after past
    (∀ left reset, (l.remaining now key).1 = .ok (left, reset) → ∃ n : Nat, left = .nat n ∧ (n : Int) ≤ quota) ∧
    (isOnCalendar (now - window * second) = true → isOnCalendar (now + window * second) = true →
      ∃ left reset, (l.remaining now key).1 = .ok (left, reset)) ∧
    ∀ (n : Nat) reset, (l.isBlocked now key).1 = false → (l.remaining now key).1 = .ok (.nat n, reset) →
      ((l.remaining now key).2.Grants now key n ↔
        isOnCalendar (now - window * second) = true ∧ isOnCalendar (now + blockSeconds * second) = true) := by
  intro l
  have h : Tidy window quota now l := tidy_after window quota hpast
  refine ⟨fun left reset ha => h.left_le hquota ha, fun hback hahead => ?_, fun n reset hopen ha => ?_⟩
  · obtain ⟨⟨left, reset⟩, ha⟩ := h.answers hnow hback hahead
    exact ⟨left, reset, ha⟩
  · rw [isBlocked_eq_false_iff] at hopen
    have hfigured : Figured window quota (l.remaining now key).2 := h.figured.next ⟨now, key, .remaining⟩
    have hkept : (l.remaining now key).2.inWindow window now key = l.inWindow window now key := by
      simpa [accepts, next] using inWindow_next h.figured ⟨now, key, .remaining⟩ key
    have hleft : (n : Int) = _ := Value.int.inj (remaining_eq_ok h.figured hopen ha).1
    have hstanding : Standing window quota now key n (l.remaining now key).2 0 := by
      refine .free (Nat.zero_le n) ((blockEnd?_remaining h.figured now key key).trans hopen) ?_
      rw [hkept]
      omega
    rw [← dated_iff hnow]
    constructor
    · intro hg
      exact ⟨hg.dated hfigured hstanding, hg.blockEnd_onCalendar hfigured hwindow hstanding⟩
    · rintro ⟨hd, hend⟩
      exact grants_of_onCalendar hfigured hwindow hd hend hstanding

theorem remaining_granted_third : let past : List (Call String) := [⟨0, "a", .add⟩, ⟨5, "a", .add⟩]
    let l := (fresh 10 3).after past
    isOnCalendar 7 = true ∧ (∀ c ∈ past, c.time ≤ 7) ∧ (l.isBlocked 7 "a").1 = false ∧
      (l.remaining 7 "a").1 = .ok (.nat 1, .int 9) ∧ (l.remaining 7 "a").2.Grants 7 "a" 1 := by
  intro past l
  have hpast : ∀ c ∈ past, c.time ≤ 7 := by simp [past]
  have hopen : (l.isBlocked 7 "a").1 = false := by decide
  have hanswer : (l.remaining 7 "a").1 = .ok (.nat 1, .int 9) := rfl
  have h := (remaining_granted (by decide) (by decide) past (by decide) hpast "a").2.2 1 (.int 9) hopen hanswer
  exact ⟨by decide, hpast, hopen, hanswer, h.mpr (by decide)⟩

/-- A client that was never seen is told the whole quota, also where no request can be accepted. -/
theorem unseen_client_not_granted : let l : ClientLimiter String := fresh 100000000000 1
    let now := 1704067200000000
    (l.isBlocked now "a").1 = false ∧ (l.remaining now "a").1 = .ok (.nat 1, .int 100000000000) ∧
      ∃ f, ((l.remaining now "a").2.add now "a").1 = .error f := by
  intro l now
  exact ⟨by decide, rfl, _, rfl⟩

/-! The waiting time that a client with nothing left is told. -/

/-- A key that is not blocked and has nothing left is served again after so many whole seconds if
and only if they are more than it was told. -/
theorem served_iff_reset_lt {window quota : Int} (hwindow : 0 ≤ window) (hquota : 1 ≤ quota)
    (past : List (Call κ)) (now : Int) (key : κ) :
    let l := (fresh window quota).after past
    ∀ r : Int, (l.isBlocked now key).1 = false → (l.remaining now key).1 = .ok (.int 0, .int r) →
      0 ≤ r ∧ ∀ k : Nat, isOnCalendar (now + k * second) = true →
        (((l.remaining now key).2.add (now + k * second) key).1 = .ok none ↔ r < k) := by
  intro l r hopen ha
  rw [isBlocked_eq_false_iff] at hopen
  have hl : Figured window quota l := Figured.after ⟨rfl, rfl⟩ past
  obtain ⟨hd, hfull, oldest, hmin, rfl⟩ := oldest_of_spent hl hquota hopen ha
  have hstart : now - window * second ≤ oldest := by simpa using of_mem_filter (min?_mem hmin)
  refine ⟨Int.tdiv_nonneg (by omega) (by decide), fun k hcal => ?_⟩
  have hlater : now ≤ now + k * second := by
    have : 0 ≤ (k : Int) * second := Int.mul_nonneg (by omega) (by decide)
    omega
  have hl' : Figured window quota (l.remaining now key).2 := hl.next ⟨now, key, .remaining⟩
  have hkept : (l.remaining now key).2.inWindow window (now + k * second) key =
      since (now + k * second - window * second) (l.inWindow window now key) := by
    rw [inWindow]
    rcases requestsOf_remaining hl now key with h | h
    · rw [h, inWindow, since_since (by omega)]
    · rw [h]
  have hfree : (l.remaining now key).2.blockEnd? (now + k * second) key = none :=
    blockEnd?_wait ((blockEnd?_remaining hl now key key).trans hopen) hlater
  have hserved := (accepts_iff (c := ⟨now + k * second, key, .add⟩) hl').trans
    (and_iff_right rfl |>.trans (and_iff_right hfree |>.trans (and_iff_right (hd.wait hwindow hlater hcal))))
  rw [← accepts_add_iff, hserved, hkept, secondsUntil_lt_iff (by omega)]
  have hdropped := length_since_lt_iff hmin (now + k * second - window * second)
  omega

theorem served_iff_reset_lt_boundary : let l := (fresh 10 1).after [(⟨0, "a", .add⟩ : Call String)]
    (l.isBlocked 0 "a").1 = false ∧ (l.remaining 0 "a").1 = .ok (.int 0, .int 10) ∧
      isOnCalendar (0 + (11 : Nat) * second) = true ∧
      ((l.remaining 0 "a").2.add (0 + (11 : Nat) * second) "a").1 = .ok none := by
  intro l
  have hopen : (l.isBlocked 0 "a").1 = false := by decide
  have hanswer : (l.remaining 0 "a").1 = .ok (.int 0, .int 10) := rfl
  have hserved := (served_iff_reset_lt (by decide) (by decide) _ 0 "a" 10 hopen hanswer).2 11 (by decide)
  exact ⟨hopen, hanswer, by decide, hserved.mpr (by decide)⟩

/-- The request that comes when the key was told to come is refused, and blocks the key. -/
theorem refused_after_reset : let l := (fresh 10 1).after [(⟨0, "a", .add⟩ : Call String)]
    (l.isBlocked 0 "a").1 = false ∧ (l.remaining 0 "a").1 = .ok (.int 0, .int 10) ∧
      ((l.remaining 0 "a").2.add (0 + 10 * second) "a").1 = .ok (some 300) := by
  intro l
  exact ⟨by decide, rfl, rfl⟩

end ClientLimiter

end CodeAudit.Limit

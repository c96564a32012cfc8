import Mathlib.Tactic.Linarith
import Mathlib.Data.List.TakeWhile
import CodeAudit.Limit

/-! Runs of calls through the fixed windows. For one client and one kind of call the limiter is a
single counter, whatever other calls come in between. -/

namespace CodeAudit.Limit.WindowLimiter

open List Time

structure Call where
  time : Rat
  client : String
  kind : String

def Call.isOf (c : Call) (client kind : String) : Bool := c.client == client && c.kind == kind

variable (l : WindowLimiter Rat String)

def opens (c : Call) : Bool :=
  match l.quotas.get? c.kind, l.window? c.client c.kind with
  | none, _ => false
  | some _, none => true
  | some quota, some w => quota.isOver? (c.time - w.start) == some true

structure Answered where
  call : Call
  opened : Bool
  accepted : Bool

def checkAll (l : WindowLimiter Rat String) : List Call → List Answered
  | [] => []
  | c :: rest =>
    ⟨c, l.opens c, (l.check c.time c.client c.kind).1⟩ :: checkAll (l.check c.time c.client c.kind).2 rest

def after (calls : List Call) : WindowLimiter Rat String :=
  calls.foldl (fun l c => (l.check c.time c.client c.kind).2) l

variable (log : List Answered) (client kind : String)

def entriesOf : List Answered :=
  log.filter fun a => a.call.isOf client kind

def acceptedCount : Nat := log.countP (·.accepted)

def acceptedIn (start stop : Rat) : Nat :=
  log.countP fun a => a.accepted && decide (start ≤ a.call.time ∧ a.call.time ≤ stop)

def entered (W : Int) (now : Rat) : Option (Window Rat) → Bool × Window Rat
  | none => (true, ⟨0, now⟩)
  | some w => if (W : Rat) < now - w.start then (true, ⟨0, now⟩) else (false, w)

variable (N : Nat)

def counted (w : Window Rat) : Window Rat := if w.count < N then { w with count := w.count + 1 } else w

def tally (N : Nat) (W : Int) : Option (Window Rat) → List Call → List Answered
  | _, [] => []
  | w, c :: rest =>
    ⟨c, (entered W c.time w).1, decide ((entered W c.time w).2.count < N)⟩ ::
      tally N W (some (counted N (entered W c.time w).2)) rest

/-! The limiter as a family of counters. -/

theorem window?_setWindow (w : Window Rat)
    (other sort : String) : (l.setWindow client kind w).window? other sort =
      if other = client ∧ sort = kind then some w else l.window? other sort := by
  simp only [window?, setWindow, Keyed.get?_put]
  by_cases ho : other = client
  · subst ho
    by_cases hs : sort = kind
    · simp [hs, Keyed.get?_put]
    · cases hw : l.windows.get? other <;> simp [Keyed.get?_put]
  · simp [ho]

theorem isOver?_int (W : Int) (elapsed : Rat) :
    (Quota.mk (.int N) (.int W)).isOver? elapsed = some (decide ((W : Rat) < elapsed)) := rfl

theorem isSpent?_int (W : Int) (count : Nat) :
    (Quota.mk (.int N) (.int W)).isSpent? count = some (decide (N ≤ count)) := by
  have hc : Num.le (.int N) (.int count) = decide (N ≤ count) := by
    simp only [Num.le, Num.compare?]
    rcases lt_trichotomy (N : Int) count with h | h | h
    · simp [compare_lt_iff_lt.mpr h, (by omega : N ≤ count)]
    · simp [h, (by omega : N ≤ count)]
    · have hlt : count < N := by omega
      simp [compare_gt_iff_gt.mpr h, hlt]
  simp only [Quota.isSpent?, Value.number?, Option.map_some, hc]

variable {client kind : String}

theorem check_of_unknown (l : WindowLimiter Rat String) (now : Rat) (h : l.quotas.get? kind = none) :
    l.check now client kind = (false, l) := by
  simp only [check, h]

section Step

variable {l : WindowLimiter Rat String} {c : Call} {N : Nat} {W : Int}

theorem check_of_quota (hq : l.quotas.get? c.kind = some ⟨.int N, .int W⟩) :
    let e := entered W c.time (l.window? c.client c.kind)
    l.opens c = e.1 ∧ l.check c.time c.client c.kind =
      (decide (e.2.count < N), l.setWindow c.client c.kind (counted N e.2)) := by
  have hspent (count : Nat) :
      ((Quota.mk (.int N) (.int W)).isSpent? count = some false) ↔ count < N := by
    rw [isSpent?_int]
    simp
  cases hw : l.window? c.client c.kind with
  | none =>
    refine ⟨by simp [opens, hq, hw, entered], ?_⟩
    simp only [check, hq, hw, Option.getD_none, isOver?_int, entered, counted, hspent, ite_self]
    split_ifs with hlt <;> simp [hlt]
  | some w =>
    refine ⟨?_, ?_⟩
    · simp only [opens, hq, hw, isOver?_int, entered]
      split_ifs with ho <;> simp [ho]
    · simp only [check, hq, hw, Option.getD_some, isOver?_int, entered, counted, hspent]
      by_cases ho : (W : Rat) < c.time - w.start
      · simp only [ho, decide_true, if_true]
        split_ifs with hlt <;> simp [hlt]
      · simp only [ho, decide_false, if_false, Bool.false_eq_true]
        split_ifs with hlt <;> simp [hlt]

theorem check_leaves (l : WindowLimiter Rat String) (now : Rat) (client kind : String) :
    (l.check now client kind).2 = l ∨ ∃ w, (l.check now client kind).2 = l.setWindow client kind w := by
  unfold check
  split
  · exact .inl rfl
  · dsimp only
    split
    · exact .inr ⟨_, rfl⟩
    · split_ifs
      all_goals exact .inr ⟨_, rfl⟩

theorem check_quotas (l : WindowLimiter Rat String) (now : Rat) (client kind : String) :
    (l.check now client kind).2.quotas = l.quotas := by
  rcases check_leaves l now client kind with h | ⟨w, h⟩ <;> rw [h]
  rfl

theorem window?_check_of_other {client kind : String} (h : c.isOf client kind = false) :
    (l.check c.time c.client c.kind).2.window? client kind = l.window? client kind := by
  have hne : ¬ (client = c.client ∧ kind = c.kind) := by
    rintro ⟨rfl, rfl⟩
    simp [Call.isOf] at h
  rcases check_leaves l c.time c.client c.kind with hl | ⟨w, hl⟩
  · rw [hl]
  · rw [hl, window?_setWindow, if_neg hne]

end Step

variable {l : WindowLimiter Rat String} {W : Int} {N : Nat}

theorem entriesOf_checkAll_cons {c : Call} (hc : c.isOf client kind) (rest : List Call) :
    entriesOf (checkAll l (c :: rest)) client kind = ⟨c, l.opens c, (l.check c.time c.client c.kind).1⟩ ::
        entriesOf (checkAll (l.check c.time c.client c.kind).2 rest) client kind := by
  simp [entriesOf, checkAll, hc]

theorem entriesOf_checkAll (calls : List Call) (hq : l.quotas.get? kind = some ⟨.int N, .int W⟩) :
    entriesOf (checkAll l calls) client kind =
      tally N W (l.window? client kind) (calls.filter (·.isOf client kind)) := by
  induction calls generalizing l with
  | nil => rfl
  | cons c rest ih =>
    have hq' : (l.check c.time c.client c.kind).2.quotas.get? kind = some ⟨.int N, .int W⟩ := by rw [check_quotas, hq]
    have hrest := ih hq'
    cases hc : c.isOf client kind with
    | false =>
      rw [window?_check_of_other hc] at hrest
      simpa [entriesOf, checkAll, hc] using hrest
    | true =>
      obtain ⟨rfl, rfl⟩ : c.client = client ∧ c.kind = kind := by simpa [Call.isOf] using hc
      obtain ⟨hopens, hcheck⟩ := check_of_quota hq
      have hwindow : (l.check c.time c.client c.kind).2.window? c.client c.kind =
          some (counted N (entered W c.time (l.window? c.client c.kind)).2) := by
        rw [hcheck, window?_setWindow, if_pos ⟨rfl, rfl⟩]
      rw [hwindow] at hrest
      rw [entriesOf_checkAll_cons hc, hrest, hopens, hcheck]
      simp [hc, tally]

/-! What a counter accepts. -/

section Counter

variable {N : Nat} {W : Int} {now : Rat}

theorem entered_cases (W : Int) (now : Rat) (w : Option (Window Rat)) :
    entered W now w = (true, ⟨0, now⟩) ∧ (∀ v ∈ w, (W : Rat) < now - v.start) ∨
      ∃ v, w = some v ∧ entered W now w = (false, v) ∧ now - v.start ≤ W := by
  cases w with
  | none => exact .inl ⟨rfl, by simp⟩
  | some v =>
    simp only [entered]
    split_ifs with hover
    · exact .inl ⟨rfl, by simpa using hover⟩
    · exact .inr ⟨v, rfl, rfl, not_lt.mp hover⟩

variable {w : Option (Window Rat)}

theorem entered_of_not_opened {w : Window Rat}
    (h : (entered W now (some w)).1 = false) : (entered W now (some w)).2 = w := by
  rcases entered_cases W now (some w) with ⟨he, -⟩ | ⟨_, ⟨⟩, he, -⟩
  · rw [he] at h
    cases h
  · rw [he]

theorem counted_start (w : Window Rat) : (counted N w).start = w.start := by
  unfold counted
  split_ifs <;> rfl

theorem left_counted (w : Window Rat) : (if w.count < N then 1 else 0) + (N - (counted N w).count) = N - w.count := by
  unfold counted
  split_ifs
  · dsimp only
    omega
  · omega

theorem acceptedCount_cons (a : Answered) (log : List Answered) :
    acceptedCount (a :: log) = (if a.accepted then 1 else 0) + acceptedCount log := by
  simp only [acceptedCount, countP_cons]
  omega

variable {calls : List Call} {during rest before : List Answered}

theorem tally_drop (hlog : tally N W w calls = before ++ rest) : ∃ w calls, tally N W w calls = rest := by
  induction before generalizing w calls with
  | nil => exact ⟨w, calls, hlog⟩
  | cons b before ih =>
    cases calls with
    | nil => cases hlog
    | cons c calls => exact ih (cons.inj hlog).2

theorem left_of_quiet {w : Window Rat} (hlog : tally N W (some w) calls = during ++ rest)
    (hquiet : ∀ a ∈ during, a.opened = false) : ∃ (v : Window Rat) (later : List Call),
      tally N W (some v) later = rest ∧ acceptedCount during + (N - v.count) = N - w.count := by
  induction during generalizing w calls with
  | nil => exact ⟨w, calls, hlog, Nat.zero_add _⟩
  | cons a during ih =>
    cases calls with
    | nil => cases hlog
    | cons c calls =>
      obtain ⟨ha, htail⟩ := cons.inj hlog
      have hsame : (entered W c.time (some w)).2 = w := by
        apply entered_of_not_opened
        have := hquiet a (by simp)
        rwa [← ha] at this
      rw [hsame] at ha htail
      obtain ⟨v, later, hrest, hcount⟩ := ih htail fun b hb => hquiet b (by simp [hb])
      have hleft := left_counted (N := N) w
      refine ⟨v, later, hrest, ?_⟩
      rw [acceptedCount_cons, ← ha]
      simp only [decide_eq_true_eq]
      omega

theorem accepted_iff_of_quiet {w : Window Rat} {a : Answered}
    (hlog : tally N W (some w) calls = during ++ a :: rest) (hquiet : ∀ b ∈ during ++ [a], b.opened = false) :
    a.accepted ↔ acceptedCount during < N - w.count := by
  obtain ⟨v, later, hrest, hcount⟩ := left_of_quiet hlog fun b hb => hquiet b (by simp [hb])
  cases later with
  | nil => cases hrest
  | cons c later =>
    obtain ⟨rfl, -⟩ := cons.inj hrest
    have hsame : (entered W c.time (some v)).2 = v :=
      entered_of_not_opened (hquiet _ (mem_append_right during (mem_singleton.mpr rfl)))
    simp only [hsame, decide_eq_true_eq]
    omega

theorem acceptedCount_stretch (hlog : tally N W w calls = before ++ during ++ rest)
    (hquiet : ∀ a ∈ during.tail, a.opened = false) : acceptedCount during ≤ N := by
  obtain ⟨w, calls, hlog⟩ := tally_drop (hlog.trans (append_assoc ..))
  cases during with
  | nil => exact Nat.zero_le _
  | cons a during =>
    cases calls with
    | nil => cases hlog
    | cons c calls =>
      obtain ⟨ha, htail⟩ := cons.inj hlog
      obtain ⟨v, later, -, hrest⟩ := left_of_quiet htail hquiet
      have hleft := left_counted (N := N) (entered W c.time w).2
      rw [acceptedCount_cons, ← ha]
      simp only [decide_eq_true_eq]
      omega

theorem accepted_iff_count_lt {first a : Answered}
    (hlog : tally N W w calls = before ++ first :: during ++ a :: rest) (hfirst : first.opened)
    (hquiet : ∀ b ∈ during ++ [a], b.opened = false) : a.accepted ↔ acceptedCount (first :: during) < N := by
  obtain ⟨w, calls, hlog⟩ := tally_drop (hlog.trans (append_assoc ..))
  cases calls with
  | nil => cases hlog
  | cons c calls =>
    obtain ⟨rfl, htail⟩ := cons.inj hlog
    rcases entered_cases W c.time w with ⟨he, -⟩ | ⟨v, -, he, -⟩
    · have hleft := left_counted (N := N) ⟨0, c.time⟩
      rw [accepted_iff_of_quiet htail hquiet, acceptedCount_cons]
      simp only [he, decide_eq_true_eq] at hleft ⊢
      omega
    · rw [he] at hfirst
      cases hfirst

theorem tally_openings_apart (hclock : calls.Pairwise fun c d => c.time ≤ d.time)
    (hstart : ∀ v ∈ w, ∀ c ∈ calls, v.start ≤ c.time) :
    (∀ v ∈ w, ∀ a ∈ tally N W w calls, a.opened → (W : Rat) < a.call.time - v.start) ∧
      ((tally N W w calls).filter (·.opened)).Pairwise fun a b => (W : Rat) < b.call.time - a.call.time := by
  induction calls generalizing w with
  | nil => simp [tally]
  | cons c calls ih =>
    obtain ⟨hc, hcalls⟩ := pairwise_cons.mp hclock
    have hnext : ∀ u ∈ some (counted N (entered W c.time w).2), ∀ d ∈ calls, u.start ≤ d.time := by
      rintro _ ⟨⟩ d hd
      rw [counted_start]
      rcases entered_cases W c.time w with ⟨he, -⟩ | ⟨v, rfl, he, -⟩ <;> rw [he]
      · exact hc d hd
      · exact hstart v rfl d (by simp [hd])
    obtain ⟨hlate, hapart⟩ := ih hcalls hnext
    have hlate := hlate _ rfl
    rw [counted_start] at hlate
    rcases entered_cases W c.time w with ⟨he, hover⟩ | ⟨v, rfl, he, -⟩
    · simp only [tally, he, mem_cons, filter_cons, if_true, pairwise_cons, mem_filter] at hlate hapart ⊢
      refine ⟨?_, fun b hb => hlate b hb.1 hb.2, hapart⟩
      rintro v hv a (rfl | ha) hopen
      · exact hover v hv
      · have hfar := hlate a ha hopen
        have hnow := hstart v hv c (by simp)
        linarith
    · simp only [tally, he, mem_cons, filter_cons, Bool.false_eq_true, if_false] at hlate hapart ⊢
      refine ⟨?_, hapart⟩
      rintro _ ⟨⟩ a (rfl | ha) hopen
      · cases hopen
      · exact hlate a ha hopen

theorem tally_calls (w : Option (Window Rat)) (calls : List Call) : (tally N W w calls).map (·.call) = calls := by
  induction calls generalizing w with
  | nil => rfl
  | cons c calls ih => simp [tally, ih]

theorem openings_apart (hclock : calls.Pairwise fun c d => c.time ≤ d.time) :
    ((tally N W none calls).filter (·.opened)).Pairwise fun a b => (W : Rat) < b.call.time - a.call.time :=
  (tally_openings_apart hclock (by simp)).2

end Counter

/-! The start that the limiter keeps. -/

theorem start_check {c : Call} (hq : l.quotas.get? c.kind = some ⟨.int N, .int W⟩) :
    ((l.check c.time c.client c.kind).2.window? c.client c.kind).map (·.start) =
      if l.opens c then some c.time else (l.window? c.client c.kind).map (·.start) := by
  obtain ⟨hopens, hcheck⟩ := check_of_quota hq
  rw [hcheck, window?_setWindow, if_pos ⟨rfl, rfl⟩, Option.map_some, counted_start, hopens]
  rcases entered_cases W c.time (l.window? c.client c.kind) with ⟨he, -⟩ | ⟨v, hv, he, -⟩
  · rw [he, if_pos rfl]
  · rw [he, hv]
    rfl

theorem start_after (client : String) (calls : List Call)
    (hq : l.quotas.get? kind = some ⟨.int N, .int W⟩) : ((l.after calls).window? client kind).map (·.start) =
      (((entriesOf (checkAll l calls) client kind).filter (·.opened)).getLast?.map (·.call.time)).or
        ((l.window? client kind).map (·.start)) := by
  induction calls generalizing l with
  | nil => rfl
  | cons c rest ih =>
    have hq' : (l.check c.time c.client c.kind).2.quotas.get? kind = some ⟨.int N, .int W⟩ := by rw [check_quotas, hq]
    rw [after, foldl_cons, ← after, ih hq']
    cases hc : c.isOf client kind with
    | false => simp [window?_check_of_other hc, entriesOf, checkAll, hc]
    | true =>
      obtain ⟨rfl, rfl⟩ : c.client = client ∧ c.kind = kind := by simpa [Call.isOf] using hc
      rw [entriesOf_checkAll_cons hc, start_check hq]
      cases ho : l.opens c with
      | true =>
        rw [filter_cons_of_pos rfl, getLast?_cons]
        cases ((entriesOf _ _ _).filter (·.opened)).getLast? <;> rfl
      | false => rw [filter_cons_of_neg Bool.false_ne_true, if_neg Bool.false_ne_true]

/-! Any interval. -/

variable {log : List Answered}

variable (hsorted : log.Pairwise fun a b => a.call.time ≤ b.call.time)

include hsorted

theorem exists_split {p : Rat → Prop} [DecidablePred p] (hp : ∀ s t, s ≤ t → p t → p s) : ∃ first later,
    log = first ++ later ∧ (∀ a ∈ first, p a.call.time) ∧ ∀ a ∈ later, ¬ p a.call.time := by
  induction log with
  | nil => exact ⟨[], [], rfl, by simp, by simp⟩
  | cons a log ih =>
    obtain ⟨ha, hlog⟩ := pairwise_cons.mp hsorted
    by_cases hpa : p a.call.time
    · obtain ⟨first, later, rfl, hfirst, hlater⟩ := ih hlog
      exact ⟨a :: first, later, rfl, forall_mem_cons.mpr ⟨hpa, hfirst⟩, hlater⟩
    · exact ⟨[], a :: log, rfl, by simp, forall_mem_cons.mpr ⟨hpa, fun b hb hpb => hpa (hp _ _ (ha b hb) hpb)⟩⟩

theorem exists_stretch (start stop : Rat) :
    ∃ before during rest, log = before ++ during ++ rest ∧ (∀ a ∈ during, start ≤ a.call.time ∧ a.call.time ≤ stop) ∧
      acceptedIn log start stop ≤ acceptedCount during := by
  obtain ⟨before, late, rfl, hbefore, hlate⟩ := exists_split hsorted (p := (· < start)) fun _ _ h ht => h.trans_lt ht
  obtain ⟨during, rest, rfl, hduring, hrest⟩ :=
    exists_split (pairwise_append.mp hsorted).2.1 (p := (· ≤ stop)) fun _ _ h ht => h.trans ht
  refine ⟨before, during, rest, (append_assoc ..).symm, fun a ha => ?_, ?_⟩
  · exact ⟨not_lt.mp (hlate a (mem_append_left rest ha)), hduring a ha⟩
  have hnone : acceptedIn before start stop = 0 := countP_eq_zero.mpr fun a ha => by simp [not_le.mpr (hbefore a ha)]
  have hnone' : acceptedIn rest start stop = 0 := countP_eq_zero.mpr fun a ha => by simp [hrest a ha]
  have hmost : acceptedIn during start stop ≤ acceptedCount during := countP_mono_left fun a _ ha => by
    simp only [Bool.and_eq_true] at ha
    exact ha.1
  simp only [acceptedIn, countP_append] at *
  omega

theorem acceptedIn_le_two_mul (hstretch : ∀ before during rest, log = before ++ during ++ rest →
      (∀ a ∈ during.tail, a.opened = false) → acceptedCount during ≤ N)
    (hapart : (log.filter (·.opened)).Pairwise fun a b => (W : Rat) < b.call.time - a.call.time)
    (start : Rat) : acceptedIn log start (start + W) ≤ 2 * N := by
  obtain ⟨before, during, rest, hlog, hin, hcount⟩ := exists_stretch hsorted start (start + W)
  refine hcount.trans ?_
  cases hopened : during.find? (·.opened) with
  | none =>
    have hquiet := find?_eq_none.mp hopened
    have := hstretch before during rest hlog fun b hb => Bool.eq_false_iff.mpr (hquiet b (mem_of_mem_tail hb))
    omega
  | some a =>
    obtain ⟨ha, first, later, rfl, hfirst⟩ := find?_eq_some_iff_append.mp hopened
    have hlog' : log = before ++ first ++ (a :: later ++ rest) := by simp [hlog]
    have hlog'' : log = before ++ first ++ a :: later ++ rest := by simp [hlog]
    -- A second start in the interval would be too close to the first one.
    have hlater : ∀ b ∈ later, b.opened = false := by
      intro b hb
      rw [Bool.eq_false_iff]
      intro hopen
      have hpair : [a, b].Sublist ((a :: later).filter (·.opened)) := by simpa [ha, hopen] using hb
      have hsub : ((a :: later).filter (·.opened)).Sublist (log.filter (·.opened)) := by
        apply List.Sublist.filter
        rw [hlog']
        exact (sublist_append_left (a :: later) rest).trans (sublist_append_right _ _)
      have hfar := pairwise_pair.mp (hapart.sublist (hpair.trans hsub))
      have hlow := (hin a (by simp)).1
      have hhigh := (hin b (by simp [hb])).2
      linarith
    have h₁ := hstretch before first _ hlog' fun b hb => by simpa using hfirst b (mem_of_mem_tail hb)
    have h₂ := hstretch (before ++ first) (a :: later) rest hlog'' hlater
    have hsum : acceptedCount (first ++ a :: later) = acceptedCount first + acceptedCount (a :: later) :=
      countP_append ..
    omega

omit hsorted

/-- With a clock that never goes back, for each client and each kind with a quota of `N` calls in a
window of `W` seconds: windows start more than `W` apart, and from one start to the next a call is
accepted if and only if fewer than `N` were before it; so at most `2 * N` are in an interval of
length `W`. A call of a kind without a quota is refused and changes nothing. -/
theorem accepted_within_windows (quotas : Keyed String Quota) (calls : List Call)
    (hclock : calls.Pairwise fun c d => c.time ≤ d.time) :
    (∀ (client kind : String) (N : Nat) (W : Int), quotas.get? kind = some ⟨.int N, .int W⟩ →
      let log := entriesOf (checkAll { quotas } calls) client kind
      ((after { quotas } calls).window? client kind).map (·.start) =
        (log.filter (·.opened)).getLast?.map (·.call.time) ∧
      (log.filter (·.opened)).Pairwise (fun a b => (W : Rat) < b.call.time - a.call.time) ∧
      (∀ before first during a rest, log = before ++ first :: during ++ a :: rest →
        first.opened = true → (∀ b ∈ during ++ [a], b.opened = false) →
          (a.accepted = true ↔ acceptedCount (first :: during) < N)) ∧
      (∀ before during rest, log = before ++ during ++ rest →
        (∀ a ∈ during.tail, a.opened = false) → acceptedCount during ≤ N) ∧
      ∀ start, acceptedIn log start (start + W) ≤ 2 * N) ∧
    ∀ (l : WindowLimiter Rat String) (c : Call), l.quotas.get? c.kind = none →
      l.check c.time c.client c.kind = (false, l) := by
  refine ⟨?_, fun l c h => check_of_unknown l c.time h⟩
  intro client kind N W hq log
  have hlog : log = tally N W none (calls.filter (·.isOf client kind)) :=
    entriesOf_checkAll (l := { quotas }) calls hq
  have hcalls := hclock.sublist (List.filter_sublist (p := (·.isOf client kind)))
  have hstretch : ∀ before during rest, log = before ++ during ++ rest →
      (∀ a ∈ during.tail, a.opened = false) → acceptedCount during ≤ N := by
    intro before during rest h hquiet
    exact acceptedCount_stretch (hlog ▸ h) hquiet
  have hapart : (log.filter (·.opened)).Pairwise fun a b => (W : Rat) < b.call.time - a.call.time := by
    rw [hlog]
    exact openings_apart hcalls
  have hsorted : log.Pairwise fun a b => a.call.time ≤ b.call.time := by
    rw [← tally_calls (N := N) (W := W) none (calls.filter (·.isOf client kind)), List.pairwise_map] at hcalls
    rw [hlog]
    exact hcalls
  have hkept := start_after client calls (l := { quotas }) hq
  refine ⟨hkept.trans (Option.or_none ..), hapart, ?_, hstretch, acceptedIn_le_two_mul hsorted hstretch hapart⟩
  intro before first during a rest h hfirst hquiet
  exact accepted_iff_count_lt (hlog ▸ h) hfirst hquiet

theorem accepted_within_windows_burst :
    ∃ calls : List Call, calls.Pairwise (fun c d => c.time ≤ d.time) ∧
      (standardQuotas id).get? "analysis" = some ⟨.int (10 : Nat), .int 60⟩ ∧
      (let log := entriesOf (checkAll { quotas := standardQuotas id } calls) "ada" "analysis"
       (log.filter (·.opened)).map (·.call.time) = [0, 61] ∧
       acceptedIn log 60 (60 + (60 : Int)) = 19 ∧
         acceptedIn log 60 (60 + (60 : Int)) ≤ 2 * 10) := by
  let calls : List Call := ⟨0, "ada", "analysis"⟩ :: List.replicate 9 ⟨60, "ada", "analysis"⟩ ++
    List.replicate 11 ⟨61, "ada", "analysis"⟩
  have hclock : calls.Pairwise fun c d => c.time ≤ d.time := by decide
  have hq : (standardQuotas id).get? "analysis" = some ⟨.int (10 : Nat), .int 60⟩ := rfl
  refine ⟨calls, hclock, hq, by decide +kernel, by decide +kernel, ?_⟩
  exact ((accepted_within_windows (standardQuotas id) calls hclock).1 "ada" "analysis" 10 60 hq).2.2.2.2 60

/-! What the fixed windows say is left, and how many calls of one moment they accept. -/

def passing (l : WindowLimiter Rat String) (now : Rat) (client kind : String) (n : Nat) : List Bool :=
  (checkAll l (replicate n ⟨now, client, kind⟩)).map (·.accepted)

variable {N W : Nat} {now : Rat} {client kind : String} {l : WindowLimiter Rat String} (w : Option (Window Rat))

theorem entered_again (v : Window Rat) (hv : v.start = (entered W now w).2.start) :
    entered W now (some v) = (false, v) := by
  have hle : now - v.start ≤ (W : Int) := by
    rcases entered_cases W now w with ⟨he, -⟩ | ⟨u, -, he, hu⟩
    · simp [hv, he]
    · simpa [hv, he] using hu
  rw [entered, if_neg (not_lt.mpr hle)]

theorem accepted_tally (n : Nat) :
    (tally N W w (replicate n ⟨now, client, kind⟩)).map (·.accepted) =
      (range n).map fun i => decide (i < N - (entered W now w).2.count) := by
  induction n generalizing w with
  | zero => rfl
  | succ n ih =>
    have hleft := left_counted (N := N) (entered W now w).2
    have hnext := entered_again w (counted N (entered W now w).2) (counted_start _)
    rw [replicate_succ, tally, map_cons, ih, hnext, range_succ_eq_map, map_cons, map_map]
    refine congrArg₂ _ (decide_eq_decide.mpr (by dsimp only; omega))
      (map_congr_left fun i _ => decide_eq_decide.mpr ?_)
    dsimp only
    split_ifs at hleft <;> omega

theorem checkAll_calls (l : WindowLimiter Rat String) (calls : List Call) :
    (checkAll l calls).map (·.call) = calls := by
  induction calls generalizing l with
  | nil => rfl
  | cons c calls ih => simp [checkAll, ih]

theorem passing_eq (hq : l.quotas.get? kind = some ⟨.int N, .int W⟩) (n : Nat) : passing l now client kind n =
      (range n).map fun i => decide (i < N - (entered W now (l.window? client kind)).2.count) := by
  have hall (c : Call) (hc : c ∈ replicate n ⟨now, client, kind⟩) : c.isOf client kind := by
    simp [eq_of_mem_replicate hc, Call.isOf]
  have hlog : entriesOf (checkAll l (replicate n ⟨now, client, kind⟩)) client kind =
      checkAll l (replicate n ⟨now, client, kind⟩) := by
    refine filter_eq_self.mpr fun a ha => hall a.call ?_
    rw [← checkAll_calls l (replicate n _)]
    exact mem_map_of_mem ha
  rw [passing, ← hlog, entriesOf_checkAll _ hq, filter_eq_self.mpr hall, accepted_tally]

theorem remaining_eq (hq : l.quotas.get? kind = some ⟨.int N, .int W⟩) :
    l.remaining client kind = some (.nat (N - ((l.window? client kind).map (·.count)).getD 0)) := by
  simp only [remaining, hq, Option.bind_eq_bind, Option.bind_some]
  cases l.window? client kind with
  | none => rfl
  | some w =>
    change some (Value.ofNum (Num.max (.int 0) (.int (N - w.count)))) = some (.nat (N - w.count))
    simp only [Num.max, Num.lt, Num.compare?, beq_iff_eq, Option.some.injEq, Int.compare_eq_lt]
    split_ifs with hlt <;> simp [Value.ofNum, Value.nat] <;> omega

theorem count_pos_after (hN : 0 < N) (client : String) (calls : List Call)
    (hq : l.quotas.get? kind = some ⟨.int N, .int W⟩) (hl : ∀ w ∈ l.window? client kind, 0 < w.count) :
    ∀ w ∈ (l.after calls).window? client kind, 0 < w.count := by
  induction calls generalizing l with
  | nil => exact hl
  | cons c rest ih =>
    refine ih (by rw [check_quotas, hq]) ?_
    cases hc : c.isOf client kind with
    | false => rwa [window?_check_of_other hc]
    | true =>
      obtain ⟨rfl, rfl⟩ : c.client = client ∧ c.kind = kind := by simpa [Call.isOf] using hc
      dsimp only
      rw [(check_of_quota hq).2, window?_setWindow, if_pos ⟨rfl, rfl⟩]
      rintro _ ⟨⟩
      unfold counted
      split_ifs
      · exact Nat.succ_pos _
      · omega

theorem quotas_after (calls : List Call) : (l.after calls).quotas = l.quotas := by
  induction calls generalizing l with
  | nil => rfl
  | cons c rest ih => exact ih.trans (check_quotas ..)

/-- After any calls, as many calls of one moment are accepted as are said to be left if and only if
the last window has not ended, or the quota lets nothing pass. After a window has ended, the whole
quota is accepted. -/
theorem left_accepted_iff (quotas : Keyed String Quota) (calls : List Call) (client kind : String)
    (now : Rat) (hq : quotas.get? kind = some ⟨.int N, .int W⟩) :
    let l := after { quotas } calls
    ∃ n : Nat, l.remaining client kind = some (.nat n) ∧
      ((∀ k, passing l now client kind k = (range k).map fun i => decide (i < n)) ↔
        N = 0 ∨ ∀ w ∈ l.window? client kind, now - w.start ≤ W) ∧
      ((∃ w ∈ l.window? client kind, W < now - w.start) →
        ∀ k, passing l now client kind k = (range k).map fun i => decide (i < N)) := by
  intro l
  have hq' : l.quotas.get? kind = some ⟨.int N, .int W⟩ := by rw [quotas_after, hq]
  have hpos (hN : 0 < N) := count_pos_after hN client calls (l := { quotas }) hq (by simp [window?])
  have hsame {m n : Nat} : (∀ k, (range k).map (fun i => decide (i < m)) = (range k).map fun i => decide (i < n)) ↔
      m = n := by
    simp only [map_inj_left, mem_range, decide_eq_decide]
    refine ⟨fun h => ?_, fun h => by simp [h]⟩
    have hm := h (m + 1) m (by omega)
    have hn := h (n + 1) n (by omega)
    omega
  refine ⟨_, remaining_eq hq', ?_, ?_⟩
  · simp only [passing_eq hq', hsame]
    cases hw : l.window? client kind with
    | none => simp [entered]
    | some w =>
      rcases entered_cases W now (some w) with ⟨he, hover⟩ | ⟨v, ⟨⟩, he, hle⟩
      · have hcount : N = 0 ∨ 0 < w.count := N.eq_zero_or_pos.imp_right fun hN => hpos hN w hw
        have hnot : ¬ now - w.start ≤ W := not_le.mpr (by simpa using hover)
        simp only [he, Option.map_some, Option.getD_some, Option.mem_some_iff, forall_eq', hnot, or_false]
        omega
      · simpa [he] using .inr (by simpa using hle)
  · rintro ⟨w, hw, hover⟩ k
    rw [passing_eq hq', hw, entered, if_pos (by simpa using hover)]
    rfl

theorem left_accepted_iff_burst :
    let l := after { quotas := standardQuotas id } (replicate 3 ⟨0, "ada", "analysis"⟩)
    (standardQuotas id).get? "analysis" = some ⟨.int (10 : Nat), .int (60 : Nat)⟩ ∧
      ∃ n : Nat, l.remaining "ada" "analysis" = some (.nat n) ∧
        ∀ k, passing l 60 "ada" "analysis" k = (range k).map fun i => decide (i < n) := by
  intro l
  have hq : (standardQuotas id).get? "analysis" = some ⟨.int (10 : Nat), .int (60 : Nat)⟩ := rfl
  obtain ⟨n, hn, hiff, -⟩ :=
    left_accepted_iff (standardQuotas id) (replicate 3 ⟨0, "ada", "analysis"⟩) "ada" "analysis"
    60 hq
  refine ⟨hq, n, hn, hiff.mpr (.inr ?_)⟩
  decide +kernel

/-- A call is accepted when none are said to be left, since their window is over. -/
theorem accepted_with_none_left : ∃ calls now, let l := after { quotas := standardQuotas id } calls
    l.remaining "ada" "analysis" = some (.nat 0) ∧ passing l now "ada" "analysis" 1 = [true] := by
  refine ⟨replicate 10 ⟨0, "ada", "analysis"⟩, 61, ?_, by decide +kernel⟩
  rw [remaining_eq (N := 10) (W := 60) (by rw [quotas_after]; rfl)]
  exact congrArg (fun n => some (Value.nat n)) (by decide +kernel)

end CodeAudit.Limit.WindowLimiter

import Mathlib.Data.List.Induction
import Mathlib.Data.List.Nodup
import CodeAudit.Alert

/-! The history of alerts under every run of checks with a clock that never goes back. The clock
goes on while an alert is sent, and the cooldown starts when all channels are through. -/

namespace CodeAudit.Alert

open List

/-- One rule looked at in one check. -/
structure Step where
  check : Check
  rule : String × Rule

namespace Step

variable (s : Step)

def visit : Visit := s.check.visit s.rule.1

def run (b : Board) : Board := b.checkRule s.check s.rule

def entry (message : String) : Entry := s.check.entry s.rule message

end Step

/-- An alert: its entry, and when all channels were through. -/
structure Sending where
  entry : Entry
  stamped : Int

def Sending.IsRecent (a : Sending) (s : Step) : Prop :=
  a.entry.rule = s.rule.1 ∧ s.visit.tested - s.rule.2.span < a.stamped ∧ a.stamped ≤ s.visit.tested

instance instDecidableIsRecent (a : Sending) (s : Step) : Decidable (a.IsRecent s) :=
  inferInstanceAs (Decidable (_ ∧ _))

def alertDue? (log : List Sending) (s : Step) : Option Sending :=
  if (s.rule.2.holds s.check.metrics).toOption = some true ∧ ¬ ∃ a ∈ log, a.IsRecent s then
    (s.rule.2.message s.check.metrics).toOption.map fun message => ⟨s.entry message, s.visit.stamped⟩
  else none

/-- The alerts that are due at the steps, one after the other. -/
def alertsOf (steps : List Step) : List Sending := steps.foldl (fun log s => log ++ (alertDue? log s).toList) []

variable {s : Step} {log : List Sending} {a : Sending}

theorem alertsOf_snoc (steps : List Step) (s : Step) :
    alertsOf (steps ++ [s]) = alertsOf steps ++ (alertDue? (alertsOf steps) s).toList := by
  rw [alertsOf, foldl_concat, alertsOf]

theorem alertDue?_eq_some_iff : alertDue? log s = some a ↔ s.rule.2.holds s.check.metrics = .ok true ∧
      (∃ message, s.rule.2.message s.check.metrics = .ok message ∧ ⟨s.entry message, s.visit.stamped⟩ = a) ∧
      ¬ ∃ d ∈ log, d.IsRecent s := by
  have hread {α : Type} {x : Outcome α} {a : α} : x.toOption = some a ↔ x = .ok a := by
    cases x <;> simp [Except.toOption]
  rw [alertDue?]
  simp only [Option.ite_none_right_eq_some, Option.map_eq_some_iff, hread]
  tauto

theorem warning_eq_some_iff {r : Rule} {metrics : Value} {message : String} :
    r.warning metrics = .ok (some message) ↔ r.holds metrics = .ok true ∧ r.message metrics = .ok message := by
  rw [Rule.warning, bind_eq_ok_iff]
  constructor
  · rintro ⟨holds, hholds, hmessage⟩
    cases holds with
    | false => cases hmessage
    | true =>
      obtain ⟨said, hsaid, hsame⟩ := bind_eq_ok_iff.mp hmessage
      cases hsame
      exact ⟨hholds, hsaid⟩
  · rintro ⟨hholds, hmessage⟩
    exact ⟨true, hholds, bind_eq_ok_iff.mpr ⟨message, hmessage, rfl⟩⟩

theorem alertDue?_eq_none (h : ∀ message, s.rule.2.warning s.check.metrics ≠ .ok (some message)) :
    alertDue? log s = none := by
  refine Option.eq_none_iff_forall_ne_some.mpr fun a ha => ?_
  obtain ⟨hholds, ⟨message, hmessage, -⟩, -⟩ := alertDue?_eq_some_iff.mp ha
  exact h message (warning_eq_some_iff.mpr ⟨hholds, hmessage⟩)

theorem send_eq (b : Board) (post : Post) (r : Rule) (e : Entry) :
    ∃ sent trouble, b.send post r e = { b with history := b.history ++ [e], sent, trouble } := by
  unfold Board.send
  generalize b.history ++ [e] = history
  induction r.channels generalizing b with
  | nil => exact ⟨b.sent, b.trouble, rfl⟩
  | cons c rest ih =>
    rw [foldl_cons, Board.deliver]
    cases post c e with
    | ok mail => exact ih { b with sent := b.sent ++ mail.toList }
    | error f => exact ih { b with trouble := b.trouble ++ [f] }

/-- What a board shows of the alerts so far, and the visits they come from: its history has their
entries, and the stamp of a rule is that of an alert of it, and of none before another. -/
structure Kept (b : Board) (log : List Sending) (seen : List Visit) : Prop where
  written : b.history = log.map (·.entry)
  stamp : ∀ {id t}, b.last.get? id = some t → ∃ a ∈ log, a.entry.rule = id ∧ a.stamped = t
  latest : ∀ a ∈ log, ∃ t, b.last.get? a.entry.rule = some t ∧ a.stamped ≤ t
  visited : ∀ a ∈ log, ∃ v ∈ seen, a.entry.time = v.written ∧ a.stamped = v.stamped

section Step

variable {b : Board} {seen : List Visit} (h : Kept b log seen) (hclock : ∀ v ∈ seen, v.stamped ≤ s.visit.tested)

include h hclock

theorem Kept.past : ∀ a ∈ log, a.stamped ≤ s.visit.tested := by
  intro a ha
  obtain ⟨v, hv, -, hstamped⟩ := h.visited a ha
  exact hstamped ▸ hclock v hv

theorem Kept.isSilent_iff : b.isSilent s.visit.tested s.rule ↔ ∃ a ∈ log, a.IsRecent s := by
  constructor
  · intro hsilent
    rw [Board.isSilent] at hsilent
    split at hsilent
    next t ht =>
      obtain ⟨a, ha, hrule, hstamped⟩ := h.stamp ht
      have hpast := h.past hclock a ha
      rw [decide_eq_true_eq] at hsilent
      exact ⟨a, ha, hrule, by omega, hpast⟩
    next => cases hsilent
  · rintro ⟨a, ha, hrule, hrecent, -⟩
    obtain ⟨t, ht, hle⟩ := h.latest a ha
    rw [Board.isSilent, ← hrule, ht, decide_eq_true_eq]
    omega

theorem Kept.write (message : String) (sent : List Mail) (trouble : List Fault) : Kept
      { b with
        history := b.history ++ [s.entry message]
        last := b.last.put s.rule.1 s.visit.stamped
        sent, trouble }
      (log ++ [⟨s.entry message, s.visit.stamped⟩]) (seen ++ [s.visit]) := by
  refine ⟨?_, fun {id t} ht => ?_, fun a ha => ?_, fun a ha => ?_⟩
  · simp [h.written]
  · rw [Keyed.get?_put] at ht
    by_cases hid : id = s.rule.1
    · rw [if_pos (beq_iff_eq.mpr hid)] at ht
      exact ⟨_, mem_append_right _ (mem_singleton_self _), hid.symm, Option.some.inj ht⟩
    · rw [if_neg (mt beq_iff_eq.mp hid)] at ht
      obtain ⟨a, ha, hsame⟩ := h.stamp ht
      exact ⟨a, mem_append_left _ ha, hsame⟩
  · simp only [Keyed.get?_put]
    rcases mem_append.mp ha with ha | ha
    · by_cases hid : a.entry.rule = s.rule.1
      · -- the clock has gone on since the earlier alert of this rule
        have hpast := h.past hclock a ha
        have htested := s.visit.tested_le
        have hwritten := s.visit.written_le
        exact ⟨s.visit.stamped, if_pos (beq_iff_eq.mpr hid), by omega⟩
      · rw [if_neg (mt beq_iff_eq.mp hid)]
        exact h.latest a ha
    · rw [mem_singleton.mp ha]
      exact ⟨s.visit.stamped, if_pos (beq_self_eq_true _), Int.le_refl _⟩
  · rcases mem_append.mp ha with ha | ha
    · obtain ⟨v, hv, hsame⟩ := h.visited a ha
      exact ⟨v, mem_append_left _ hv, hsame⟩
    · rw [mem_singleton.mp ha]
      exact ⟨s.visit, mem_append_right _ (mem_singleton_self _), rfl, rfl⟩

theorem Kept.run_cases : (alertDue? log s = none ∧ ∃ trouble, s.run b = { b with trouble }) ∨
    ∃ message sent trouble, alertDue? log s = some ⟨s.entry message, s.visit.stamped⟩ ∧ s.run b =
      { b with
        history := b.history ++ [s.entry message]
        last := b.last.put s.rule.1 s.visit.stamped
        sent, trouble } := by
  rw [Step.run, Board.checkRule]
  split
  next hsilent =>
    refine .inl ⟨Option.eq_none_iff_forall_ne_some.mpr fun a ha => ?_, b.trouble, rfl⟩
    exact (alertDue?_eq_some_iff.mp ha).2.2 ((h.isSilent_iff hclock).mp hsilent)
  next hsilent =>
    split
    next f hwarning => exact .inl ⟨alertDue?_eq_none (by simp [hwarning]), _, rfl⟩
    next hwarning => exact .inl ⟨alertDue?_eq_none (by simp [hwarning]), b.trouble, rfl⟩
    next message hwarning =>
      obtain ⟨hholds, hmessage⟩ := warning_eq_some_iff.mp hwarning
      obtain ⟨sent, trouble, hsend⟩ := send_eq b s.check.post s.rule.2 (s.entry message)
      refine .inr ⟨message, sent, trouble, alertDue?_eq_some_iff.mpr ⟨hholds, ⟨message, hmessage, rfl⟩, ?_⟩, ?_⟩
      · exact mt (h.isSilent_iff hclock).mpr hsilent
      · exact congrArg (fun b : Board => { b with last := b.last.put s.rule.1 s.visit.stamped }) hsend

theorem Kept.run : Kept (s.run b) (log ++ (alertDue? log s).toList) (seen ++ [s.visit]) := by
  rcases h.run_cases hclock with ⟨hdue, trouble, heq⟩ | ⟨message, sent, trouble, hdue, heq⟩
  · rw [heq, hdue, Option.toList_none, append_nil]
    refine ⟨h.written, h.stamp, h.latest, fun a ha => ?_⟩
    obtain ⟨v, hv, hsame⟩ := h.visited a ha
    exact ⟨v, mem_append_left _ hv, hsame⟩
  · rw [heq, hdue]
    exact h.write hclock message sent trouble

end Step

def visited (rules : Table Rule) (steps : List Step) : Board := steps.foldl (fun b s => s.run b) { rules }

/-- The rules that the checks look at, one after the other. -/
def stepsOf (rules : Table Rule) (checks : List Check) : List Step :=
  checks.flatMap fun c => rules.map fun rule => ⟨c, rule⟩

def NeverBack (steps : List Step) : Prop := steps.Pairwise fun s s' => s.visit.stamped ≤ s'.visit.tested

def Apart (rules : Table Rule) (d e : Entry) : Prop :=
  ∀ rule ∈ rules, d.rule = rule.1 → e.rule = rule.1 → d.time + rule.2.span ≤ e.time

section Run

variable {rules : Table Rule} {steps : List Step}

theorem rules_run (s : Step) (b : Board) : (s.run b).rules = b.rules := by
  rw [Step.run, Board.checkRule]
  split
  · rfl
  · split
    · rfl
    · rfl
    next message _ =>
      obtain ⟨sent, trouble, hsend⟩ := send_eq b s.check.post s.rule.2 (s.check.entry s.rule message)
      rw [hsend]

theorem foldl_check {b : Board} (hrules : b.rules = rules) (checks : List Check) :
    checks.foldl Board.check b = (stepsOf rules checks).foldl (fun b s => s.run b) b := by
  have hstays (steps : List Step) (b : Board) : (steps.foldl (fun b s => s.run b) b).rules = b.rules := by
    induction steps generalizing b with
    | nil => rfl
    | cons s rest ih => exact (ih (s.run b)).trans (rules_run s b)
  induction checks generalizing b with
  | nil => rfl
  | cons c rest ih =>
    have hcheck : b.check c = (rules.map fun rule => (⟨c, rule⟩ : Step)).foldl (fun b s => s.run b) b := by
      rw [foldl_map, Board.check, hrules]
      rfl
    rw [foldl_cons, stepsOf, flatMap_cons, foldl_append, ← hcheck]
    exact ih (by rw [hcheck, hstays, hrules])

theorem kept_visited (rules : Table Rule) (hclock : NeverBack steps) :
    Kept (visited rules steps) (alertsOf steps) (steps.map Step.visit) := by
  induction steps using List.reverseRecOn with
  | nil => exact ⟨rfl, by simp [visited], by simp [alertsOf], by simp [alertsOf]⟩
  | append_singleton steps s ih =>
    rw [NeverBack, pairwise_append] at hclock
    rw [visited, foldl_concat, alertsOf_snoc, map_append]
    refine (ih hclock.1).run fun v hv => ?_
    obtain ⟨s', hs', rfl⟩ := mem_map.mp hv
    exact hclock.2.2 s' hs' s (mem_singleton_self s)

theorem alerts_apart (hrules : rules.keys.Nodup) (hsteps : ∀ s ∈ steps, s.rule ∈ rules) (hclock : NeverBack steps) :
    ((alertsOf steps).map (·.entry)).Pairwise (Apart rules) := by
  induction steps using List.reverseRecOn with
  | nil => exact Pairwise.nil
  | append_singleton steps s ih =>
    rw [NeverBack, pairwise_append] at hclock
    rw [alertsOf_snoc, map_append, pairwise_append]
    refine ⟨ih (fun s' hs' => hsteps s' (mem_append_left _ hs')) hclock.1, ?_, ?_⟩
    · cases alertDue? (alertsOf steps) s <;> simp
    · intro d hd e he rule hrule hdrule herule
      obtain ⟨a, ha, rfl⟩ := mem_map.mp hd
      obtain ⟨new, hnew, rfl⟩ := mem_map.mp he
      obtain ⟨-, ⟨message, -, rfl⟩, hquiet⟩ := alertDue?_eq_some_iff.mp (Option.mem_toList.mp hnew)
      have hown : s.rule = rule := inj_on_of_nodup_map hrules (hsteps s (by simp)) hrule herule
      obtain ⟨v, hv, htime, hstamped⟩ := (kept_visited rules hclock.1).visited a ha
      obtain ⟨s', hs', rfl⟩ := mem_map.mp hv
      have hpast : s'.visit.stamped ≤ s.visit.tested := hclock.2.2 s' hs' s (mem_singleton_self s)
      have hfar : ¬ s.visit.tested - s.rule.2.span < a.stamped :=
        fun hlt => hquiet ⟨a, ha, hdrule.trans (congrArg Prod.fst hown.symm), hlt, hstamped ▸ hpast⟩
      have hbefore := s'.visit.written_le
      have hafter := s.visit.tested_le
      change a.entry.time + rule.2.span ≤ s.visit.written
      rw [← hown]
      omega

end Run

/-- For every run of checks with a clock that never goes back: two entries of a rule are never
closer than its cooldown. A check writes an entry for a rule exactly if its condition holds, its
message can be made, and no earlier alert of it was through on all channels within the cooldown
before the test; what the channels answer does not matter. -/
theorem alerts_exactly_when_due {rules : Table Rule} (hrules : rules.keys.Nodup)
    {checks : List Check} (hclock : NeverBack (stepsOf rules checks)) :
    (checks.foldl Board.check { rules }).history.Pairwise (Apart rules) ∧
    (checks.foldl Board.check { rules }) = visited rules (stepsOf rules checks) ∧
    ∀ before s rest, stepsOf rules checks = before ++ s :: rest →
      (visited rules before).history = (alertsOf before).map (·.entry) ∧
      (visited rules (before ++ [s])).history =
        (visited rules before).history ++ ((alertDue? (alertsOf before) s).map (·.entry)).toList ∧
      ((alertDue? (alertsOf before) s).isSome ↔
        s.rule.2.holds s.check.metrics = .ok true ∧
          (∃ message, s.rule.2.message s.check.metrics = .ok message) ∧
          ¬ ∃ a ∈ alertsOf before, a.IsRecent s) := by
  have hrun : checks.foldl Board.check { rules } = visited rules (stepsOf rules checks) := foldl_check rfl checks
  refine ⟨?_, hrun, fun before s rest hsplit => ?_⟩
  · have hsteps : ∀ s ∈ stepsOf rules checks, s.rule ∈ rules := by
      intro s hs
      obtain ⟨c, -, hs⟩ := mem_flatMap.mp hs
      obtain ⟨rule, hrule, rfl⟩ := mem_map.mp hs
      exact hrule
    rw [hrun, (kept_visited rules hclock).written]
    exact alerts_apart hrules hsteps hclock
  · have hpart : NeverBack (before ++ [s]) := by
      rw [hsplit, NeverBack, ← singleton_append, ← append_assoc] at hclock
      exact (pairwise_append.mp hclock).1
    have hbefore := (kept_visited rules (pairwise_append.mp hpart).1).written
    refine ⟨hbefore, ?_, ?_⟩
    · rw [(kept_visited rules hpart).written, hbefore, alertsOf_snoc, map_append]
      cases alertDue? (alertsOf before) s <;> rfl
    · rw [Option.isSome_iff_exists]
      constructor
      · rintro ⟨a, ha⟩
        obtain ⟨hholds, ⟨message, hmessage, -⟩, hquiet⟩ := alertDue?_eq_some_iff.mp ha
        exact ⟨hholds, ⟨message, hmessage⟩, hquiet⟩
      · rintro ⟨hholds, ⟨message, hmessage⟩, hquiet⟩
        exact ⟨_, alertDue?_eq_some_iff.mpr ⟨hholds, ⟨message, hmessage, rfl⟩, hquiet⟩⟩

def micros (seconds : Nat) : Int := seconds * 1000000

/-- A check with one alert, whose sending takes some seconds and fails. -/
def shortage (seconds sending : Nat) : Check where
  visit id :=
    if id = "high_memory_usage" then
      ⟨micros seconds, micros seconds, micros (seconds + sending), Int.le_refl _, by unfold micros; omega⟩
    else .still (micros (if id = "api_latency" then seconds + sending else seconds))
  metrics := .object [("memory_usage_mb", .int 2000), ("error_rate", .text "high")]
  post := fun _ _ => .error (.badPath "Connection refused")

def shortages : List Check := [shortage 0 2, shortage 601 0, shortage 602 0]

theorem alerts_exactly_when_due_shortage : rules.keys.Nodup ∧ NeverBack (stepsOf rules shortages) ∧
      (shortages.foldl Board.check { rules }).history.Pairwise (Apart rules) ∧
      (shortages.foldl Board.check { rules }).history.map (·.time) = [0, micros 602] ∧
      (visited rules ((stepsOf rules shortages).take 5)).history =
        (visited rules ((stepsOf rules shortages).take 4)).history := by
  have hrules : rules.keys.Nodup := by decide
  have hclock : NeverBack (stepsOf rules shortages) := by
    unfold NeverBack
    decide
  obtain ⟨hapart, -, hsteps⟩ := alerts_exactly_when_due hrules hclock
  obtain ⟨-, hwrites, -⟩ := hsteps ((stepsOf rules shortages).take 4)
    ⟨shortage 601 0, rules[1]⟩ ((stepsOf rules shortages).drop 5) rfl
  have hsilent : ((alertDue? (alertsOf ((stepsOf rules shortages).take 4))
      ⟨shortage 601 0, rules[1]⟩).isNone) = true := by
    decide
  rw [Option.isNone_iff_eq_none.mp hsilent, Option.map_none, Option.toList_none, append_nil] at hwrites
  exact ⟨hrules, hclock, hapart, by decide, hwrites⟩

/-- An alert that is sent for two seconds keeps back one that is due after the cooldown, counted
from the entry. -/
theorem alert_kept_back_by_sending : ∃ (checks : List Check) (c : Check) (rule : String × Rule),
    rule ∈ rules ∧ NeverBack (stepsOf rules (checks ++ [c])) ∧
    rule.2.holds c.metrics = .ok true ∧
      rule.2.message c.metrics = .ok "Utilisation mémoire: 2000MB" ∧
    (∀ e ∈ (checks.foldl Board.check { rules }).history, e.rule = rule.1 →
      e.time ≤ (c.visit rule.1).tested - rule.2.span) ∧
    ((checks ++ [c]).foldl Board.check { rules }).history.length =
      (checks.foldl Board.check { rules }).history.length := by
  refine ⟨[shortage 0 2], shortage 601 0, rules[1], by simp, ?_, rfl, rfl, ?_, by decide⟩
  · unfold NeverBack
    decide
  · decide

end CodeAudit.Alert

import Mathlib.Data.List.Induction
import CodeAudit.Progress

/-! A queued tracker under every schedule of its worker. A clean-up loses what came in since the
last turn, save one update for which the worker waits. -/

namespace CodeAudit.Progress

open Tracker

/-! A direct tracker. -/

def Task.after (t : Task) (us : List Update) : Task := us.foldl Task.applyOrDrop t

variable (t : Task)

theorem Task.after_append (us vs : List Update) : t.after (us ++ vs) = (t.after us).after vs := List.foldl_append

theorem Task.after_cons (u : Update) (us : List Update) : t.after (u :: us) = (t.applyOrDrop u).after us := rfl

def direct (t : Task) : Board := { trackers := [{ task := t }] }

def Board.tellAll (b : Board) (us : List Update) : Board := us.foldl (fun b u => (b.tell 0 u).toOption.getD b) b

def Board.mainTask (b : Board) : Task := (b.trackers.headD {}).task

theorem tell_direct (u : Update) : ((direct t).tell 0 u).toOption.getD (direct t) = direct (t.applyOrDrop u) := by
  have htell : (direct t).tell 0 u = (t.apply u).map direct := by
    change (do return (direct t).set 0 { task := ← t.apply u } : Outcome Board) = _
    cases t.apply u <;> rfl
  rw [htell, Task.applyOrDrop]
  cases t.apply u <;> rfl

theorem tellAll_direct (us : List Update) : (direct t).tellAll us = direct (t.after us) := by
  induction us generalizing t with
  | nil => rfl
  | cons u us ih =>
    rw [Task.after_cons, ← ih, ← tell_direct]
    rfl

/-! A queued tracker. -/

inductive Move where
  | call (u : Update)
  | turn

def Move.update? : Move → Option Update
  | .call u => some u
  | .turn => none

def Move.isTurn : Move → Bool
  | .call _ => false
  | .turn => true

def calls (moves : List Move) : List Update := moves.filterMap Move.update?

def Move.addTo (waiting : List Update) : Move → List Update
  | .call u => waiting ++ [u]
  | .turn => []

def late (moves : List Move) : List Update := moves.foldl Move.addTo []

variable (moves : List Move)

theorem late_snoc (m : Move) : late (moves ++ [m]) = m.addTo (late moves) := by simp [late]

def Tracker.next (h : Tracker) : Move → Tracker
  | .call u => h.post u
  | .turn => h.turn

def Tracker.run (h : Tracker) (moves : List Move) : Tracker := moves.foldl Tracker.next h

theorem Tracker.run_snoc (h : Tracker) (moves : List Move) (m : Move) :
    h.run (moves ++ [m]) = (h.run moves).next m := by
  simp [run]

def opened (t : Task) (running : Bool) : Tracker := Tracker.setup { task := t, running }

theorem turn_running (queue : List Update) (begun : Bool) :
    turn { task := t, queue, worker := if begun then .waiting else .fresh } =
      { task := t.after queue, worker := .waiting } := by
  cases begun with
  | false => rfl
  | true =>
    cases queue with
    | nil => rfl
    | cons u rest => rfl

theorem run_opened : ∃ early, early ++ late moves = calls moves ∧ (moves.any Move.isTurn = false → early = []) ∧
      (opened t true).run moves =
        { task := t.after early, queue := late moves
          worker := if moves.any Move.isTurn then .waiting else .fresh } := by
  induction moves using List.reverseRecOn with
  | nil => exact ⟨[], rfl, fun _ => rfl, rfl⟩
  | append_singleton moves m ih =>
    obtain ⟨early, hcalls, hnone, hrun⟩ := ih
    rw [run_snoc, hrun, late_snoc]
    cases m with
    | call u =>
      refine ⟨early, ?_, fun h => hnone (by simpa [Move.isTurn] using h), ?_⟩
      · simp [calls, Move.addTo, Move.update?, ← List.append_assoc, hcalls]
      · simp [next, post, Move.addTo, Move.isTurn]
    | turn =>
      refine ⟨early ++ late moves, ?_, fun h => by simp [Move.isTurn] at h, ?_⟩
      · simp [calls, Move.addTo, Move.update?, hcalls]
      · rw [next, turn_running, ← Task.after_append]
        simp [Move.addTo, Move.isTurn]

theorem run_opened_stopped : (opened t false).run moves =
      { task := t, queue := calls moves, running := false
        worker := if moves.any Move.isTurn then .ended else .fresh } := by
  induction moves using List.reverseRecOn with
  | nil => rfl
  | append_singleton moves m ih =>
    rw [run_snoc, ih]
    cases m with
    | call u => simp [next, post, calls, Move.update?, Move.isTurn]
    | turn =>
      cases h : moves.any Move.isTurn <;>
        simp [next, turn, loop, calls, Move.update?, Move.isTurn]

/-! The clean-up. -/

/-- The updates that a clean-up loses: those since the worker last had its turn, without the one for
which it waits. A tracker that was cleaned up before loses all. -/
def lost (running : Bool) (moves : List Move) : List Update :=
  if running then (late moves).drop (if moves.any Move.isTurn then 1 else 0) else calls moves

theorem cleanup?_cases (running : Bool) (moves : List Move) : ((running ∧ moves.any Move.isTurn ∧ late moves = []) ∧
        ((opened t running).run moves).cleanup? = none) ∨ ¬ (running ∧ moves.any Move.isTurn ∧ late moves = []) ∧
        ∃ applied, applied ++ lost running moves = calls moves ∧ ((opened t running).run moves).cleanup? =
            some { task := t.after applied, queue := lost running moves, worker := .ended, running := false } := by
  cases running with
  | false =>
    refine .inr ⟨by simp, [], rfl, ?_⟩
    rw [run_opened_stopped]
    cases moves.any Move.isTurn <;> rfl
  | true =>
    obtain ⟨early, hcalls, hnone, hrun⟩ := run_opened t moves
    rw [hrun, lost]
    cases hturn : moves.any Move.isTurn with
    | false =>
      rw [hnone hturn] at hcalls ⊢
      exact .inr ⟨by simp, [], hcalls, rfl⟩
    | true =>
      -- The worker has begun and waits: it takes one more update, if one has come in.
      cases hlate : late moves with
      | nil => exact .inl ⟨⟨rfl, rfl, rfl⟩, rfl⟩
      | cons u rest =>
        refine .inr ⟨by simp, early ++ [u], by simpa [hlate] using hcalls, ?_⟩
        rw [Task.after_append]
        rfl

def Task.shown (t : Task) : Value × Value × Value × Value × Bool :=
  (t.current, t.status, t.details, t.error, t.completed)

/-- For every task and every schedule of the worker: a clean-up fails to return exactly if the
worker has begun and waits for an update. When it returns, the calls before the lost ones were
applied in their order, and the task is shown as that of a direct tracker if and only if the lost
ones change nothing of it. -/
theorem cleanup_agrees_iff_lost_idle (t : Task) (running : Bool) (moves : List Move) :
    (((opened t running).run moves).cleanup? = none ↔
        running = true ∧ moves.any Move.isTurn = true ∧ late moves = []) ∧
      ∀ h, ((opened t running).run moves).cleanup? = some h →
        (∃ applied, applied ++ lost running moves = calls moves ∧
          h.task = ((direct t).tellAll applied).mainTask) ∧
          h.queue = lost running moves ∧
          (h.task.shown = ((direct t).tellAll (calls moves)).mainTask.shown ↔
            ((direct h.task).tellAll (lost running moves)).mainTask.shown = h.task.shown) := by
  rcases cleanup?_cases t running moves with ⟨hwaits, hnone⟩ | ⟨hends, applied, hcalls, hsome⟩
  · refine ⟨iff_of_true hnone hwaits, fun h hreturn => ?_⟩
    rw [hnone] at hreturn
    cases hreturn
  · refine ⟨iff_of_false (hsome ▸ Option.some_ne_none _) hends, fun h hreturn => ?_⟩
    obtain rfl := Option.some.inj (hsome.symm.trans hreturn)
    refine ⟨⟨applied, hcalls, by rw [tellAll_direct]; rfl⟩, rfl, ?_⟩
    rw [← hcalls, tellAll_direct, tellAll_direct, Task.after_append]
    exact eq_comm

def twoLate : List Move := [.call (.status (.text "read")), .turn, .call (.status (.text "parse")), .call .complete]

theorem cleanup_agrees_iff_lost_idle_twoLate :
    ∃ h, ((opened {} true).run twoLate).cleanup? = some h ∧ h.queue = [.complete] ∧
      h.task.status = .text "parse" ∧ h.task.completed = false := by
  have hreturn : ((opened {} true).run twoLate).cleanup? = some _ := rfl
  exact ⟨_, hreturn, ((cleanup_agrees_iff_lost_idle {} true twoLate).2 _ hreturn).2.1, rfl, rfl⟩

/-- An update that waits in the queue when the worker is cleaned up is never shown. -/
theorem update_lost_at_cleanup :
    ∃ h, ((opened {} true).run [.call (.status (.text "done"))]).cleanup? = some h ∧
      h.task.shown ≠ ((direct {}).tellAll [.status (.text "done")]).mainTask.shown := by
  refine ⟨_, rfl, fun hsame => ?_⟩
  have hstatus : Value.text "" = .text "done" := congrArg (·.2.1) hsame
  simp at hstatus

end CodeAudit.Progress

import Mathlib.Data.List.Induction
import Mathlib.Data.List.Nodup
import CodeAudit.Queue

/-! The queue of analyses under every schedule. The books of a run say where each analysis is. -/

namespace CodeAudit.Queue

open Worker List Analysis

def next (q : Queue) (e : Event) : Queue := (q.step e).getD q

theorem run_append (q : Queue) (before after : List Event) : q.run (before ++ after) = (q.run before).run after := by
  simp [run]

variable (events : List Event) (q : Queue)

theorem run_cons (e : Event) (events : List Event) : q.run (e :: events) = (q.next e).run events := rfl

theorem run_snoc (events : List Event) (e : Event) : q.run (events ++ [e]) = (q.run events).next e := by
  rw [run_append]
  rfl

def opened (permits count : Nat) : Queue := start { permits } count

def atWork : List Analysis := q.workers.filterMap analysis?

def Analysis.unsettled (a : Analysis) : Analysis := { a with status := .pending }

def Event.incoming (serial : Nat) : Event → List Analysis
  | .enqueue micros data => [.incoming serial micros data]
  | _ => []

def arrivals (events : List Event) : List Analysis := events.foldl (fun as e => as ++ e.incoming as.length) []

theorem arrivals_snoc (e : Event) :
    arrivals (events ++ [e]) = arrivals events ++ e.incoming (arrivals events).length := by
  simp [arrivals]

theorem serials_arrivals : (arrivals events).map serial = range (arrivals events).length := by
  induction events using reverseRecOn with
  | nil => rfl
  | append_singleton events e ih =>
    rw [arrivals_snoc]
    cases e <;> simp [Event.incoming, incoming, range_succ, ih]

variable {a : Analysis}

theorem unsettled_of_mem_arrivals {events : List Event} (ha : a ∈ arrivals events) : a.unsettled = a := by
  induction events using reverseRecOn with
  | nil => simp [arrivals] at ha
  | append_singleton events e ih =>
    rw [arrivals_snoc, mem_append] at ha
    rcases ha with ha | ha
    · exact ih ha
    · cases e <;> simp only [Event.incoming, mem_singleton, not_mem_nil] at ha
      subst ha
      rfl

inductive Moves (q : Queue) : Event → Queue → Prop where
  | stays {e : Event} (hnone : ∀ serial, e.incoming serial = []) : Moves q e q
  | enqueue (micros : Int) (data : Value) : Moves q (.enqueue micros data) (q.enqueue micros data)
  | acquire {place n : Nat} (hrunning : q.running = true) (hworker : q.workers[place]? = some .idle)
      (hpermits : q.permits = n + 1) : Moves q (.acquire place) { q.become place .waiting with permits := n }
  | take {place : Nat} {a : Analysis} {rest : List Analysis} (hrunning : q.running = true)
      (hworker : q.workers[place]? = some .waiting) (hpending : q.pending = a :: rest) :
      Moves q (.take place)
        { q.become place (.handling a) with pending := rest, handed := q.handed ++ [a] }
  | finish {place : Nat} {a : Analysis} (hworker : q.workers[place]? = some (.handling a))
      (ending : Ending) :
      Moves q (.finish place ending) { q.become place (.after q.running ending) with
        permits := q.permits + 1, reports := q.reports + 1
        finished := q.finished ++ [a.settle ending] }
  | stop : Moves q .stop { q with running := false }
  | leave {place : Nat} {w : Worker} (hrunning : q.running = false) (hworker : q.workers[place]? = some w) :
      Moves q (.leave place) { q.become place .gone with
        permits := q.permits + w.holdsPermit.toNat, reports := q.reports + w.analysis?.toList.length
        dropped := q.dropped ++ w.analysis?.toList }

theorem moves_next (q : Queue) (e : Event) : Moves q e (q.next e) := by
  unfold next
  cases e with
  | enqueue micros data => exact .enqueue micros data
  | stop => exact .stop
  | acquire place =>
    simp only [step]
    split
    next hrunning hworker hpermits => exact .acquire hrunning hworker hpermits
    next => exact .stays fun _ => rfl
  | take place =>
    simp only [step]
    split
    next hrunning hworker hpending => exact .take hrunning hworker hpending
    next => exact .stays fun _ => rfl
  | finish place ending =>
    simp only [step]
    split
    next hworker => exact .finish hworker ending
    next => exact .stays fun _ => rfl
  | leave place =>
    simp only [step]
    split
    next hrunning hworker => exact .leave hrunning hworker
    next => exact .stays fun _ => rfl

theorem exists_split {α : Type} {xs : List α} {i : Nat} {x : α} (h : xs[i]? = some x) :
    ∃ before after, xs = before ++ x :: after ∧ ∀ y, xs.set i y = before ++ y :: after := by
  obtain ⟨hi, rfl⟩ := List.getElem?_eq_some_iff.mp h
  refine ⟨xs.take i, xs.drop (i + 1), ?_, fun y => ?_⟩
  · rw [← drop_eq_getElem_cons hi, take_append_drop]
  · rw [set_eq_take_append_cons_drop, if_pos hi]

variable {place : Nat} {w : Worker} {q : Queue}

variable (h : q.workers[place]? = some w)

include h

theorem countP_become (v : Worker) : (q.become place v).workers.countP holdsPermit + w.holdsPermit.toNat =
      q.workers.countP holdsPermit + v.holdsPermit.toNat := by
  obtain ⟨before, after, hq, hset⟩ := exists_split h
  have hcount : ∀ u : Worker, (before ++ u :: after).countP holdsPermit =
      before.countP holdsPermit + after.countP holdsPermit + u.holdsPermit.toNat := by
    intro u
    cases hu : u.holdsPermit <;> simp [hu, Nat.add_assoc]
  rw [become, hset v, hcount v, hq, hcount w]
  omega

theorem atWork_become (v : Worker) :
    List.Perm (w.analysis?.toList ++ (q.become place v).atWork) (v.analysis?.toList ++ q.atWork) := by
  obtain ⟨before, after, hq, hset⟩ := exists_split h
  have hwork : ∀ u : Worker, (before ++ u :: after).filterMap analysis? =
      before.filterMap analysis? ++ (u.analysis?.toList ++ after.filterMap analysis?) := by
    intro u
    cases hu : u.analysis? <;> simp [hu]
  have hnew : (q.become place v).atWork = (before ++ v :: after).filterMap analysis? := by rw [atWork, become, hset v]
  rw [hnew, atWork, hq, hwork v, hwork w]
  exact (perm_append_comm_assoc ..).append_left _ |>.trans (perm_append_comm_assoc ..) |>.trans
    ((perm_append_comm_assoc ..).symm.append_left _)

theorem release {v : Worker} (hv : v.holdsPermit = false) :
    (q.become place v).workers.countP holdsPermit + w.holdsPermit.toNat = q.workers.countP holdsPermit ∧
      List.Perm (w.analysis?.toList ++ (q.become place v).atWork) q.atWork := by
  have hcount := countP_become h v
  have hwork := atWork_become h v
  cases v with
  | idle | gone => exact ⟨hcount, hwork⟩
  | waiting | handling a => cases hv

omit h

/-! The books of a run. -/

/-- Where the analyses are that came in: those that were handed over came before those that wait,
and each of them is at a worker, dropped or finished. -/
structure Books (permits : Nat) (arrived : List Analysis) (q : Queue) : Prop where
  count : q.arrived = arrived.length
  inOrder : q.handed ++ q.pending = arrived
  permits : q.permits + q.workers.countP holdsPermit = permits
  parts : List.Perm q.handed (q.atWork ++ (q.dropped ++ q.finished.map Analysis.unsettled))
  reports : q.reports = q.finished.length + q.dropped.length

variable (permits count : Nat)

theorem books_opened : Books permits [] (opened permits count) where
  count := rfl
  inOrder := rfl
  permits := by simp [opened, start, holdsPermit]
  parts := by simp [opened, start, atWork, analysis?]
  reports := rfl

theorem Books.next {permits : Nat} {arrived : List Analysis} (h : Books permits arrived q)
    (hnew : ∀ a ∈ arrived, a.unsettled = a) (e : Event) :
    Books permits (arrived ++ e.incoming arrived.length) (q.next e) := by
  obtain ⟨hcount, horder, hpermits, hparts, hreports⟩ := h
  have hmoves := moves_next q e
  generalize q.next e = q' at hmoves
  cases hmoves with
  | stays hnone =>
    rw [hnone, append_nil]
    exact ⟨hcount, horder, hpermits, hparts, hreports⟩
  | enqueue micros data =>
    refine ⟨by simp [Queue.enqueue, Event.incoming, hcount], ?_, hpermits, hparts, hreports⟩
    simp [Queue.enqueue, Event.incoming, hcount, ← horder]
  | stop =>
    simp only [Event.incoming, append_nil]
    exact ⟨hcount, horder, hpermits, hparts, hreports⟩
  | @acquire place n hrunning hworker hn =>
    have hheld := countP_become hworker .waiting
    simp only [holdsPermit, Bool.toNat_false, Bool.toNat_true] at hheld
    have hsum : n + (q.become place .waiting).workers.countP holdsPermit = permits := by omega
    simp only [Event.incoming, append_nil]
    exact ⟨hcount, horder, hsum, hparts.trans ((atWork_become hworker .waiting).symm.append_right _), hreports⟩
  | @take place a rest hrunning hworker hpending =>
    have hheld := countP_become hworker (.handling a)
    simp only [holdsPermit] at hheld
    have hsum : q.permits + (q.become place (.handling a)).workers.countP holdsPermit = permits := by omega
    have hmoved : (q.handed ++ [a]) ++ rest = arrived := by rw [← horder, hpending, append_assoc]; rfl
    have hwork : List.Perm (q.become place (.handling a)).atWork (a :: q.atWork) :=
      atWork_become hworker (.handling a)
    simp only [Event.incoming, append_nil]
    refine ⟨hcount, hmoved, hsum, ?_, hreports⟩
    exact ((perm_append_singleton ..).trans (hparts.cons a)).trans (hwork.symm.append_right _)
  | @finish place a hworker ending =>
    -- The worker goes back to the start or away: it has no permit either way.
    generalize hw : after q.running ending = w
    have hfree : w.holdsPermit = false := by
      rw [← hw, Worker.after]
      split <;> rfl
    obtain ⟨hheld, hwork⟩ := release hworker hfree
    simp only [holdsPermit, analysis?, Bool.toNat_true] at hheld hwork
    have hsum : q.permits + 1 + (q.become place w).workers.countP holdsPermit = permits := by omega
    have ha : a.unsettled = a := by
      refine hnew a (horder ▸ mem_append_left _ (hparts.mem_iff.mpr (mem_append_left _ ?_)))
      exact hwork.subset (mem_append_left _ (mem_singleton_self a))
    have hlast : (q.finished ++ [a.settle ending]).map unsettled =
        q.finished.map unsettled ++ [a] := by
      rw [map_append, map_singleton, show (a.settle ending).unsettled = a from ha]
    have hends : q.reports + 1 = (q.finished ++ [a.settle ending]).length + q.dropped.length := by
      rw [length_append, length_singleton]
      omega
    simp only [Event.incoming, append_nil]
    refine ⟨hcount, horder, hsum, hparts.trans ((hwork.symm.append_right _).trans ?_), hends⟩
    change List.Perm _ ((q.become place w).atWork ++
      (q.dropped ++ (q.finished ++ [a.settle ending]).map unsettled))
    rw [hlast]
    simpa using (perm_append_singleton a
      ((q.become place w).atWork ++ (q.dropped ++ q.finished.map unsettled))).symm
  | @leave place w hrunning hworker =>
    obtain ⟨hheld, hwork⟩ := release hworker (v := .gone) rfl
    have hsum : q.permits + w.holdsPermit.toNat + (q.become place .gone).workers.countP holdsPermit = permits := by
      omega
    have hends : q.reports + w.analysis?.toList.length =
        q.finished.length + (q.dropped ++ w.analysis?.toList).length := by
      rw [length_append]
      omega
    simp only [Event.incoming, append_nil]
    refine ⟨hcount, horder, hsum, hparts.trans ((hwork.symm.append_right _).trans ?_), hends⟩
    rw [append_assoc, append_assoc]
    exact (perm_append_comm_assoc ..).trans ((perm_append_comm_assoc ..).append_left _)

theorem books_run (events : List Event) : Books permits (arrivals events) ((opened permits count).run events) := by
  induction events using reverseRecOn with
  | nil => exact books_opened permits count
  | append_singleton events e ih =>
    rw [arrivals_snoc, run_snoc]
    exact ih.next (fun a => unsettled_of_mem_arrivals) e

structure Running (q : Queue) : Prop where
  running : q.running = true ∨ q.workers = []
  dropped : q.dropped = []

variable {e : Event} {other : Nat}

theorem Running.next (h : Running q) (he : e ≠ .stop) : Running (q.next e) := by
  have hmoves := moves_next q e
  generalize q.next e = q' at hmoves
  cases hmoves with
  | stays => exact h
  | stop => exact absurd rfl he
  | enqueue | acquire | take | finish =>
    refine ⟨h.running.imp id fun hnone => ?_, h.dropped⟩
    simp [Queue.enqueue, become, hnone]
  | leave hrunning hworker =>
    have hnone : q.workers = [] := h.running.resolve_left (by simp [hrunning])
    simp [hnone] at hworker

theorem running_run {events : List Event} (h : Event.stop ∉ events) :
    Running ((opened permits count).run events) := by
  induction events using reverseRecOn with
  | nil =>
    refine ⟨?_, rfl⟩
    cases count <;> simp [run, opened, start]
  | append_singleton events e ih =>
    rw [mem_append, mem_singleton, not_or] at h
    rw [run_snoc]
    exact (ih h.1).next (Ne.symm h.2)

def Answered (q : Queue) (events : List Event) (a : Analysis) (ending : Ending) : Prop :=
  ∃ before place after, events = before ++ .finish place ending :: after ∧
    (q.run before).workers[place]? = some (.handling a)

theorem answered_of_finished (q : Queue) (hnone : q.finished = []) (events : List Event) :
    ∀ b ∈ (q.run events).finished, ∃ a ending, Answered q events a ending ∧ b = a.settle ending := by
  induction events using reverseRecOn with
  | nil => simp [run, hnone]
  | append_singleton events e ih =>
    intro b hb
    have hearlier : b ∈ (q.run events).finished →
        ∃ a ending, Answered q (events ++ [e]) a ending ∧ b = a.settle ending := by
      intro hb
      obtain ⟨a, ending, ⟨before, place, after, rfl, hworker⟩, rfl⟩ := ih b hb
      exact ⟨a, ending, ⟨before, place, after ++ [e], by simp, hworker⟩, rfl⟩
    rw [run_snoc] at hb
    have hmoves := moves_next (q.run events) e
    generalize (q.run events).next e = q' at hmoves hb
    cases hmoves with
    | stays | enqueue | acquire | take | stop | leave => exact hearlier hb
    | @finish place a hworker ending =>
      rcases mem_append.mp hb with hb | hb
      · exact hearlier hb
      · exact ⟨a, ending, ⟨events, place, [], rfl, hworker⟩, mem_singleton.mp hb⟩

theorem finished_of_answered {events : List Event} {ending : Ending} (h : Answered q events a ending) :
    a.settle ending ∈ (q.run events).finished := by
  obtain ⟨before, place, after, rfl, hworker⟩ := h
  have hstays : ∀ (events : List Event) (q : Queue), a.settle ending ∈ q.finished →
      a.settle ending ∈ (q.run events).finished := by
    intro events
    induction events with
    | nil => exact fun _ h => h
    | cons e rest ih =>
      intro q hq
      refine ih (q.next e) ?_
      have hmoves := moves_next q e
      generalize q.next e = q' at hmoves
      cases hmoves with
      | stays | enqueue | acquire | take | stop | leave => exact hq
      | finish => exact mem_append_left _ hq
  rw [run_append, run_cons]
  refine hstays after _ ?_
  rw [Queue.next, step, hworker]
  exact mem_append_right _ (mem_singleton_self _)

theorem unsettled_of_answered {permits count : Nat} {events : List Event} {ending : Ending}
    (h : Answered (opened permits count) events a ending) : a.unsettled = a := by
  obtain ⟨before, place, after, rfl, hworker⟩ := h
  have hbooks := books_run permits count before
  have hwork : a ∈ ((opened permits count).run before).atWork :=
    mem_filterMap.mpr ⟨.handling a, mem_of_getElem? hworker, rfl⟩
  have hhanded := hbooks.parts.mem_iff.mpr (mem_append_left _ hwork)
  exact unsettled_of_mem_arrivals (hbooks.inOrder ▸ mem_append_left _ hhanded)

theorem nodup_serials_arrivals : ((arrivals events).map serial).Nodup := by
  rw [serials_arrivals]
  exact nodup_range

theorem status_completed_iff {ending : Ending} {result : Value} :
    ending.status = .completed result ↔ ending = .returns result := by
  unfold Ending.status
  split <;> simp

theorem status_failed_iff {ending : Ending} {words : Option String} :
    ending.status = .failed words ↔ ∃ logged told, ending = .raises (some logged) words told := by
  unfold Ending.status
  split <;> simp

theorem status_pending_iff {ending : Ending} :
    ending.status = .pending ↔ ending = .calledOff ∨ ∃ kept told, ending = .raises none kept told := by
  unfold Ending.status
  split <;> simp

def sharedPermit : List Event := [.enqueue 0 (.int 1), .enqueue 1 (.int 2), .acquire 0, .acquire 1, .take 0,
  .enqueue 2 (.int 3), .finish 0 (.plain "no parser"), .acquire 1, .take 1, .finish 1 (.returns (.int 4)),
  .acquire 0, .take 0]

def Event.endsAt (place : Nat) : Event → Bool
  | .finish other _ | .leave other => other == place
  | _ => false

theorem Event.endsAt_of_ne (he : e.endsAt place) (hother : other ≠ place) : e.endsAt other = false := by
  cases e with
  | enqueue | acquire | take | stop => rfl
  | finish p | leave p =>
    obtain rfl : p = place := by simpa [endsAt] using he
    simpa [endsAt] using Ne.symm hother

theorem next_of_not_ends (hstopped : q.running = false) (he : ∀ place, e.endsAt place = false) :
    (q.next e).workers = q.workers ∧ (q.next e).dropped = q.dropped := by
  cases e with
  | enqueue | stop => exact ⟨rfl, rfl⟩
  | acquire | take => simp [next, step, hstopped]
  | finish place | leave place => simpa [Event.endsAt] using he place

theorem Worker.mem_analysis? : a ∈ w.analysis?.toList ↔ w = .handling a := by
  cases w <;> simp [analysis?, eq_comm]

theorem handling_become_gone : (q.become place .gone).workers[other]? = some (.handling a) ↔
      other ≠ place ∧ q.workers[other]? = some (.handling a) := by
  by_cases hother : other = place
  · subst hother
    simp [become, getElem?_set]
  · simp [become, hother, Ne.symm hother]

theorem next_of_ends (hstopped : q.running = false) (he : e.endsAt place) (a : Analysis) :
    (∀ other, (q.next e).workers[other]? = some (.handling a) ↔
        other ≠ place ∧ q.workers[other]? = some (.handling a)) ∧
      (a ∈ (q.next e).dropped ↔ a ∈ q.dropped ∨ e = .leave place ∧ q.workers[place]? = some (.handling a)) := by
  cases e with
  | enqueue | acquire | take | stop => cases he
  | finish p ending =>
    obtain rfl : p = place := by simpa [Event.endsAt] using he
    by_cases hb : ∃ b, q.workers[p]? = some (.handling b)
    · obtain ⟨b, hb⟩ := hb
      have hnext : (q.next (.finish p ending)).workers = (q.become p .gone).workers ∧
          (q.next (.finish p ending)).dropped = q.dropped := by
        simp [next, step, hb, hstopped, become, Worker.after]
      rw [hnext.1, hnext.2]
      exact ⟨fun _ => handling_become_gone, by simp⟩
    · have hnext : q.next (.finish p ending) = q := by
        have hmoves := moves_next q (.finish p ending)
        generalize q.next (.finish p ending) = q' at hmoves
        cases hmoves with
        | stays => rfl
        | finish hworker => exact absurd ⟨_, hworker⟩ hb
      rw [hnext]
      refine ⟨fun other => ⟨fun h => ⟨?_, h⟩, And.right⟩, by simp⟩
      rintro rfl
      exact hb ⟨a, h⟩
  | leave p =>
    obtain rfl : p = place := by simpa [Event.endsAt] using he
    cases hw : q.workers[p]? with
    | none =>
      have hnext : q.next (.leave p) = q := by simp [next, step, hw]
      rw [hnext]
      refine ⟨fun other => ⟨fun h => ⟨?_, h⟩, And.right⟩, by simp⟩
      rintro rfl
      simp [hw] at h
    | some w =>
      have hnext : (q.next (.leave p)).workers = (q.become p .gone).workers ∧
          (q.next (.leave p)).dropped = q.dropped ++ w.analysis?.toList := by
        simp [next, step, hw, hstopped]
      rw [hnext.1, hnext.2, mem_append, mem_analysis?]
      exact ⟨fun _ => handling_become_gone, by simp⟩

theorem running_next (hstopped : q.running = false) (e : Event) : (q.next e).running = false := by
  have hmoves := moves_next q e
  generalize q.next e = q' at hmoves
  cases hmoves with
  | stop => rfl
  | stays | enqueue | acquire | take | finish | leave => exact hstopped

theorem mem_dropped_run (hstopped : q.running = false) (events : List Event) (a : Analysis) :
    a ∈ (q.run events).dropped ↔ a ∈ q.dropped ∨ ∃ place, q.workers[place]? = some (.handling a) ∧
      events.find? (·.endsAt place) = some (.leave place) := by
  induction events generalizing q with
  | nil => simp [run]
  | cons e events ih =>
    rw [run_cons, ih (running_next hstopped e)]
    by_cases he : ∃ place, e.endsAt place
    · obtain ⟨place, he⟩ := he
      obtain ⟨hworkers, hdropped⟩ := next_of_ends hstopped he a
      simp only [hworkers, hdropped]
      constructor
      · rintro ((h | ⟨rfl, h⟩) | ⟨other, ⟨hother, h⟩, hfind⟩)
        · exact .inl h
        · exact .inr ⟨place, h, by simp [he]⟩
        · exact .inr ⟨other, h, by simpa [Event.endsAt_of_ne he hother] using hfind⟩
      · rintro (h | ⟨other, h, hfind⟩)
        · exact .inl (.inl h)
        · by_cases hother : other = place
          · subst hother
            rw [find?_cons, he] at hfind
            exact .inl (.inr ⟨Option.some.inj hfind, h⟩)
          · exact .inr ⟨other, ⟨hother, h⟩, by simpa [Event.endsAt_of_ne he hother] using hfind⟩
    · have hends : ∀ place, e.endsAt place = false := by simpa using he
      obtain ⟨hworkers, hdropped⟩ := next_of_not_ends hstopped hends
      simp [hworkers, hdropped, hends]

/-- When the stop came, a worker was at the analysis, and the worker then left before the handler
came to an end. -/
def CutOff (atStop : Queue) (after : List Event) (a : Analysis) : Prop :=
  ∃ place, atStop.workers[place]? = some (.handling a) ∧ after.find? (·.endsAt place) = some (.leave place)

/-- The handler of the analysis came to an end that gives it no status. -/
def BrokenOff (opened : Queue) (events : List Event) (a : Analysis) : Prop :=
  ∃ ending, Answered opened events a ending ∧ ending.status = .pending

/-- Once all workers are gone after a stop, an analysis that came in still waits or has got a
status, unless it was cut off or its handler had broken off. -/
theorem lost_iff_cutOff (permits count : Nat) (before after : List Event)
    (hbefore : Event.stop ∉ before)
    (hgone : ∀ w ∈ ((opened permits count).run (before ++ .stop :: after)).workers, w = .gone) :
    let q := (opened permits count).run (before ++ .stop :: after)
    ∀ a ∈ arrivals (before ++ .stop :: after),
      (a ∈ q.pending ∨ ∃ b ∈ q.finished, b.unsettled = a ∧ b.status ≠ .pending) ↔
        ¬ CutOff ((opened permits count).run before) after a ∧
        ¬ BrokenOff (opened permits count) (before ++ .stop :: after) a := by
  intro q a ha
  have hbooks : Books permits (arrivals (before ++ .stop :: after)) q := books_run permits count _
  have hidle : q.atWork = [] := by
    rw [atWork, List.filterMap_eq_nil_iff]
    intro w hw
    rw [hgone w hw]
    rfl
  have hparts : List.Perm q.handed (q.dropped ++ q.finished.map Analysis.unsettled) := by
    simpa [hidle] using hbooks.parts
  have hnodup : (q.handed ++ q.pending).Nodup := hbooks.inOrder ▸ (nodup_serials_arrivals _).of_map
  have hdistinct : (q.dropped ++ q.finished.map Analysis.unsettled).Nodup := hparts.nodup_iff.mp hnodup.of_append_left
  have hdropped : a ∈ q.dropped ↔ CutOff ((opened permits count).run before) after a := by
    have hrun : q = (((opened permits count).run before).next .stop).run after := by rw [← run_cons, ← run_append]
    have hnone : (((opened permits count).run before).next .stop).dropped = [] :=
      (running_run permits count hbefore).dropped
    rw [hrun, mem_dropped_run rfl, hnone]
    exact or_iff_right List.not_mem_nil
  have hbroken : BrokenOff (opened permits count) (before ++ .stop :: after) a ↔
      ∃ b ∈ q.finished, b.unsettled = a ∧ b.status = .pending := by
    constructor
    · rintro ⟨ending, hanswered, hstatus⟩
      exact ⟨_, finished_of_answered hanswered, unsettled_of_mem_arrivals ha, hstatus⟩
    · rintro ⟨b, hb, rfl, hstatus⟩
      obtain ⟨c, ending, hanswered, rfl⟩ := answered_of_finished _ rfl _ b hb
      exact ⟨ending, (unsettled_of_answered hanswered).symm ▸ hanswered, hstatus⟩
  rw [← hdropped, hbroken]
  constructor
  · rintro (hpending | ⟨b, hb, rfl, hsettled⟩)
    · have hnot : a ∉ q.dropped ++ q.finished.map Analysis.unsettled := fun h =>
        List.disjoint_of_nodup_append hnodup (hparts.mem_iff.mpr h) hpending
      refine ⟨fun h => hnot (List.mem_append_left _ h), ?_⟩
      rintro ⟨b, hb, rfl, -⟩
      exact hnot (List.mem_append_right _ (List.mem_map_of_mem hb))
    · refine ⟨fun h => List.disjoint_of_nodup_append hdistinct h (List.mem_map_of_mem hb), ?_⟩
      rintro ⟨c, hc, hsame, hstatus⟩
      obtain rfl := List.inj_on_of_nodup_map hdistinct.of_append_right hc hb hsame
      exact hsettled hstatus
  · rintro ⟨hkept, hended⟩
    rw [← hbooks.inOrder, List.mem_append, hparts.mem_iff, List.mem_append] at ha
    rcases ha with (hlost | hfinished) | hpending
    · exact absurd hlost hkept
    · obtain ⟨b, hb, rfl⟩ := List.mem_map.mp hfinished
      exact .inr ⟨b, hb, rfl, fun hstatus => hended ⟨b, hb, rfl, hstatus⟩⟩
    · exact .inl hpending

def beforeStop : List Event := [.enqueue 0 (.int 1), .enqueue 1 (.int 2), .enqueue 2 (.int 3), .acquire 0, .take 0,
  .acquire 1, .take 1]

/-- One handler gives its result after the stop, and one is cut off. -/
def afterStop : List Event := [.finish 0 (.returns .null), .leave 1]

theorem lost_iff_cutOff_two : Event.stop ∉ beforeStop ∧
      (∀ w ∈ ((opened 5 2).run (beforeStop ++ .stop :: afterStop)).workers, w = .gone) ∧
      CutOff ((opened 5 2).run beforeStop) afterStop (.incoming 1 1 (.int 2)) ∧
      ¬ CutOff ((opened 5 2).run beforeStop) afterStop (.incoming 2 2 (.int 3)) ∧
      ¬ BrokenOff (opened 5 2) (beforeStop ++ .stop :: afterStop) (.incoming 0 0 (.int 1)) := by
  have hbefore : Event.stop ∉ beforeStop := by simp [beforeStop]
  have hgone : ∀ w ∈ ((opened 5 2).run (beforeStop ++ .stop :: afterStop)).workers, w = .gone := by
    intro w hw
    have hworkers : w ∈ [Worker.gone, Worker.gone] := hw
    simpa using hworkers
  have hlost := lost_iff_cutOff 5 2 beforeStop afterStop hbefore hgone
  have hwaits : Analysis.incoming 2 2 (.int 3) ∈ ((opened 5 2).run (beforeStop ++ .stop :: afterStop)).pending :=
    List.mem_singleton_self _
  have hended : ∃ b ∈ ((opened 5 2).run (beforeStop ++ .stop :: afterStop)).finished,
      b.unsettled = .incoming 0 0 (.int 1) ∧ b.status ≠ .pending :=
    ⟨(Analysis.incoming 0 0 (.int 1)).settle (.returns .null), List.mem_singleton_self _, rfl, nofun⟩
  refine ⟨hbefore, hgone, ⟨1, rfl, rfl⟩, ?_, ?_⟩
  · exact ((hlost _ (List.mem_of_getElem? (i := 2) rfl)).mp (.inl hwaits)).1
  · exact ((hlost _ (List.mem_of_getElem? (i := 0) rfl)).mp (.inr hended)).2

/-- An analysis that is being worked at when the queue stops neither waits nor has an end. -/
theorem analysis_lost_at_stop :
    ∃ a ∈ arrivals [.enqueue 0 .null, .acquire 0, .take 0, .stop, .leave 0],
      (∀ w ∈ ((opened 5 1).run [.enqueue 0 .null, .acquire 0, .take 0, .stop, .leave 0]).workers,
        w = .gone) ∧
        a ∉ ((opened 5 1).run [.enqueue 0 .null, .acquire 0, .take 0, .stop, .leave 0]).pending ∧
        ∀ b ∈ ((opened 5 1).run [.enqueue 0 .null, .acquire 0, .take 0, .stop, .leave 0]).finished,
          b.serial ≠ a.serial := by
  refine ⟨.incoming 0 0 .null, List.mem_singleton_self _, ?_, List.not_mem_nil,
    fun b hb => absurd hb List.not_mem_nil⟩
  intro w hw
  exact List.mem_singleton.mp hw

end CodeAudit.Queue

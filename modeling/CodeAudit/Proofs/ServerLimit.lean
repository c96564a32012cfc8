import CodeAudit.Proofs.WindowLimit
import CodeAudit.Server

/-! Requests to the server as the limiter sees them. The server asks for a kind of request of its
own. -/

namespace CodeAudit.Server.Gate

open Limit WindowLimiter

structure Visit where
  time : Rat
  client : String

abbrev History := List (Visit × Outcome Unit)

def tooMany : Fault := .refused 429 "Trop de requêtes"

def next (s : Gate Rat × History) (v : Visit) : Gate Rat × History :=
  let r := s.1.checkLimits v.time v.client
  (r.2, s.2 ++ [(v, r.1)])

def run (g : Gate Rat) (visits : List Visit) : Gate Rat × History := visits.foldl next (g, [])

/-- The window of a client after some requests, in which those that were admitted are counted. -/
def windowOf (W : Int) (client : String) (past : History) : Option (Window Rat) :=
  past.foldl (fun w (v, answer) =>
    if v.client = client then
      let e := (entered W v.time w).2
      some (if answer.isOk then { e with count := e.count + 1 } else e)
    else w) none

def admittedBefore (W : Int) (past : History) (v : Visit) : Nat :=
  (entered W v.time (windowOf W v.client past)).2.count

/-- In every run a client is only told that it asked too often if as many of its requests as its
quota allows were admitted in the present window. -/
def RefusesOnlySpent (g : Gate Rat) : Prop :=
  ∀ (visits : List Visit) (v : Visit), ((run g visits).1.checkLimits v.time v.client).1 = .error tooMany →
    ∃ (N : Nat) (W : Int), g.limiter.quotas.get? requestKind = some ⟨.int N, .int W⟩ ∧
      N ≤ admittedBefore W (run g visits).2 v

variable {g : Gate Rat} {now : Rat} {client : String} {N : Nat} {W : Int}

theorem checkLimits_of_unknown (h : g.limiter.quotas.get? requestKind = none) (now : Rat) (client : String) :
    g.checkLimits now client = (.error tooMany, g) := by
  simp only [checkLimits, check_of_unknown _ now h]
  rfl

theorem checkLimits_of_quota (hres : g.hasResources)
    (hq : g.limiter.quotas.get? requestKind = some ⟨.int N, .int W⟩) (now : Rat) (client : String) :
    let e := (entered W now (g.limiter.window? client requestKind)).2
    g.checkLimits now client = (if e.count < N then .ok () else .error tooMany,
      { g with limiter := g.limiter.setWindow client requestKind (counted N e) }) := by
  intro e
  have hcheck := (check_of_quota (c := ⟨now, client, requestKind⟩) hq).2
  simp only [checkLimits, hcheck]
  by_cases hlt : e.count < N <;> simp [e, hlt, hres, tooMany]

structure Books (N : Nat) (W : Int) (s : Gate Rat × History) : Prop where
  resources : s.1.hasResources = true
  quota : s.1.limiter.quotas.get? requestKind = some ⟨.int N, .int W⟩
  windows : ∀ client, s.1.limiter.window? client requestKind = windowOf W client s.2

theorem Books.next {s : Gate Rat × History} (h : Books N W s) (v : Visit) : Books N W (next s v) := by
  have hcheck := checkLimits_of_quota h.resources h.quota v.time v.client
  refine ⟨?_, ?_, fun client => ?_⟩
  · simpa only [Gate.next, hcheck] using h.resources
  · simp only [Gate.next, hcheck]
    exact h.quota
  · simp only [Gate.next, hcheck, window?_setWindow, and_true, h.windows, windowOf, List.foldl_append,
      List.foldl_cons, List.foldl_nil]
    by_cases hc : v.client = client
    · subst hc
      simp only [if_true, counted]
      split_ifs <;> simp_all [Except.isOk, Except.toBool]
    · rw [if_neg fun he => hc he.symm, if_neg hc]

theorem books_run (hres : g.hasResources) (hfresh : g.limiter.windows = [])
    (hq : g.limiter.quotas.get? requestKind = some ⟨.int N, .int W⟩) (visits : List Visit) :
    Books N W (run g visits) := by
  have hstart : Books N W (g, []) := ⟨hres, hq, fun client => by simp [window?, hfresh, windowOf]⟩
  exact List.foldlRecOn visits Gate.next hstart fun s hs v _ => hs.next v

theorem run_of_unknown (h : g.limiter.quotas.get? requestKind = none) (visits : List Visit) :
    (run g visits).1 = g := by
  have hstart : (g, ([] : History)).1 = g := rfl
  refine List.foldlRecOn (motive := fun s => s.1 = g) visits Gate.next hstart fun s hs v _ => ?_
  subst hs
  simp only [Gate.next, checkLimits_of_unknown h]

/-- The server's kind of request is not among the standard quotas, so every request is refused as
one too many. With another table of whole quotas the refusals mean what they say if and only if that
kind is in it. -/
theorem refusals_mean_spent_iff (g : Gate Rat) (hres : g.hasResources = true)
    (hfresh : g.limiter.windows = [])
    (hwhole : ∀ q, g.limiter.quotas.get? requestKind = some q →
    ∃ (N : Nat) (W : Int), q = ⟨.int N, .int W⟩) :
    (∀ (visits : List Visit) (v : Visit),
      ((run {} visits).1.checkLimits v.time v.client).1 =
        .error (.refused 429 "Trop de requêtes")) ∧
    (RefusesOnlySpent g ↔ (g.limiter.quotas.get? requestKind).isSome = true) := by
  have hstandard : (({} : Gate Rat).limiter.quotas.get? requestKind) = none := rfl
  refine ⟨fun visits v => ?_, fun hspent => ?_, fun hsome => ?_⟩
  · rw [run_of_unknown hstandard, checkLimits_of_unknown hstandard]
    rfl
  · by_contra hnone
    have hq : g.limiter.quotas.get? requestKind = none := by simpa using hnone
    obtain ⟨N, W, hquota, -⟩ := hspent [] ⟨0, ""⟩ (by rw [run_of_unknown hq, checkLimits_of_unknown hq])
    rw [hq] at hquota
    cases hquota
  · intro visits v hrefused
    obtain ⟨q, hq⟩ := Option.isSome_iff_exists.mp hsome
    obtain ⟨N, W, rfl⟩ := hwhole q hq
    have hbooks := books_run hres hfresh hq visits
    refine ⟨N, W, hq, ?_⟩
    rw [checkLimits_of_quota hbooks.resources hbooks.quota, hbooks.windows] at hrefused
    by_contra hlt
    rw [not_le, admittedBefore] at hlt
    rw [if_pos hlt] at hrefused
    cases hrefused

/-- The first request of a client is refused as one too many. -/
theorem first_request_refused :
    (({} : Gate Rat).checkLimits 0 "ada").1 = .error (.refused 429 "Trop de requêtes") ∧
      ¬ RefusesOnlySpent {} := by
  refine ⟨rfl, fun h => ?_⟩
  obtain ⟨N, W, hquota, -⟩ := h [] ⟨0, "ada"⟩ rfl
  cases hquota

/-- With two requests a minute for the server's kind, only the third one of a client is refused. -/
theorem refusals_mean_spent_iff_two_a_minute :
    let g : Gate Rat := { limiter := { quotas := [(requestKind, ⟨.int 2, .int 60⟩)] } }
    g.hasResources = true ∧ g.limiter.windows = [] ∧ RefusesOnlySpent g ∧
      (run g [⟨0, "ada"⟩, ⟨1, "ada"⟩, ⟨2, "ada"⟩, ⟨3, "bob"⟩, ⟨61, "ada"⟩]).2.map (·.2.isOk) =
        [true, true, false, true, true] := by
  intro g
  have hwhole : ∀ q, g.limiter.quotas.get? requestKind = some q → ∃ (N : Nat) (W : Int), q = ⟨.int N, .int W⟩ :=
    fun q hq => ⟨2, 60, (Option.some.inj hq).symm⟩
  exact ⟨rfl, rfl, (refusals_mean_spent_iff g rfl rfl hwhole).2.mpr rfl, by decide +kernel⟩

end CodeAudit.Server.Gate

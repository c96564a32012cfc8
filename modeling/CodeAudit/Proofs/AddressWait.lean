import Mathlib.Data.Rat.Floor
import CodeAudit.Proofs.AddressLimit

/-! How long a refused address is told to wait, and whether that is enough. -/

namespace CodeAudit.Limit

open List Time AddressLimiter Answered

variable {l : AddressLimiter Rat String} {now : Rat} {address : String}

def Answered.wait? (a : Answered) : Option Int :=
  match a.answer with
  | .ok v => if v.allowed then none else v.retryAfter.whole?
  | .error _ => none

theorem tdiv_eq_floor {x : Rat} (h : 0 < x) : x.num.tdiv x.den = ⌊x⌋ := by
  rw [Rat.floor_def', Int.tdiv_eq_ediv_of_nonneg (Rat.num_pos.mpr h).le]

theorem exists_release (path : String) (hr : l.rules = standardRules) {v : Verdict} {next : AddressLimiter Rat String}
    (hh : l.handle now address path = (.ok v, next)) (hv : v.allowed = false) :
    ∃ stop, now < stop ∧ next.blocks.get? address = some stop ∧ v.retryAfter = .int ⌊stop - now⌋ := by
  cases h : l.blockEnd? now address with
  | some t =>
    obtain ⟨hget, hlt⟩ := blockEnd?_eq_some.mp h
    rw [handle, check_of_blocked path h] at hh
    cases hh
    exact ⟨t, hlt, hget, by rw [tdiv_eq_floor (sub_pos.mpr hlt)]⟩
  | none =>
    have hc := check_of_open path hr h
    split_ifs at hc
    · rw [handle, hc] at hh
      cases hh
      have hpos : (0 : Rat) < (figuresOf path).blockTime := by
        exact_mod_cast (by decide : ∀ f ∈ [_, _, _], 0 < Figures.blockTime f) _ (figuresOf_mem path)
      exact ⟨now + (figuresOf path).blockTime, by linarith, by simp [Keyed.get?_put], by simp⟩
    · rw [handle, hc] at hh
      have hnoted := congrArg Prod.fst hh
      cases hr : ((looked l now address).record now address).1 <;> simp [hr, Except.map] at hnoted
      simp [← hnoted] at hv

variable {requests : List Request} {log between : List Answered} {a c : Answered}

theorem passedTimes_of_others (ha : a.isPassed = false) (hbetween : ∀ b ∈ between, b.request.address ≠ address) :
    passedTimes (log ++ a :: between) address = passedTimes log address := by
  have hnone : between.filter (fun b => b.isPassed && b.request.address == address) = [] :=
    filter_eq_nil_iff.mpr fun b hb => by simp [hbetween b hb]
  simp [passedTimes, ha, hnone]

theorem wait?_eq_some {n : Int} (h : a.wait? = some n) :
    ∃ v, a.answer = .ok v ∧ v.allowed = false ∧ v.retryAfter.whole? = some n := by
  unfold wait? at h
  split at h
  next v hv =>
    split_ifs at h with hallowed
    exact ⟨v, hv, Bool.eq_false_iff.mpr hallowed, h⟩
  next => cases h

theorem exists_blockEnd (hclock : requests.Pairwise fun r s => r.time ≤ s.time) {earlier later : List Answered}
    (hlog : handleAll {} requests = earlier ++ a :: later) {n : Int} (hwait : a.wait? = some n) :
    ∃ stop, a.request.time < stop ∧ ⌊stop - a.request.time⌋ = n ∧
      ∀ t, a.request.time < t → ((∃ b ∈ earlier ++ [a], b.hasExceeded ∧
        b.request.address = a.request.address ∧ b.blockEnd = t) ↔ stop = t) := by
  obtain ⟨before, r, after, rfl, rfl, rfl⟩ := handleAll_split hlog
  obtain ⟨hbefore, -, hrest⟩ := pairwise_append.mp hclock
  have hremembers := remembers_from_start hbefore fun s hs => hrest s hs r (by simp)
  obtain ⟨v, hanswer, hrefused, hwhole⟩ := wait?_eq_some hwait
  obtain ⟨stop, hlt, hget, htold⟩ := exists_release r.path hremembers.rules (Prod.ext hanswer rfl) hrefused
  rw [htold] at hwhole
  refine ⟨stop, hlt, Option.some.inj hwhole, fun t ht => ?_⟩
  rw [← hremembers.step.2.blocked r.address t ht, hget, Option.some.injEq]

/-- With a clock that never goes back, a refused address is kept out up to some time and told the
whole seconds until then. Its next request after so many seconds, under the same rule, is passed on
if and only if that time is reached and fewer requests than the rule allows were passed on in the
window that ends with it. -/
theorem served_after_wait_iff (requests : List Request)
    (hclock : requests.Pairwise fun r s => r.time ≤ s.time) (earlier between later : List Answered)
    (a c : Answered) (hlog : handleAll {} requests = earlier ++ a :: (between ++ c :: later))
    (n : Int) (hwait : a.wait? = some n)
    (hbetween : ∀ b ∈ between, b.request.address ≠ a.request.address)
    (haddress : c.request.address = a.request.address)
    (hpath : figuresOf c.request.path = figuresOf a.request.path)
    (htime : c.request.time = a.request.time + n) :
    ∃ stop, (∃ b ∈ earlier ++ [a], b.hasExceeded = true ∧ b.request.address = a.request.address ∧
      b.blockEnd = stop) ∧
      ⌊stop - a.request.time⌋ = n ∧
      (c.isPassed = true ↔ stop = c.request.time ∧
        (passedIn earlier a.request.address (stop - (figuresOf a.request.path).window) stop : Int) <
          (figuresOf a.request.path).requests) := by
  have hlog' : handleAll {} requests = (earlier ++ a :: between) ++ c :: later := by simpa using hlog
  have hjudged := judged_from_start hclock hlog'
  obtain ⟨v, hanswer, hrefused, -⟩ := wait?_eq_some hwait
  obtain ⟨stop, hlt, rfl, hend⟩ := exists_blockEnd hclock hlog hwait
  refine ⟨stop, (hend stop hlt).mpr rfl, rfl, ?_⟩
  have hstart : a.request.time ≤ c.request.time := by
    have hfloor : (0 : Rat) ≤ ⌊stop - a.request.time⌋ := by
      exact_mod_cast Int.floor_nonneg.mpr (sub_nonneg.mpr hlt.le)
    linarith
  have hstop : c.request.time ≤ stop := by linarith [Int.floor_le (stop - a.request.time)]
  have hmet : c.metBlock = true ↔ c.request.time < stop := by
    rw [hjudged.metBlock_iff, haddress]
    constructor
    · rintro ⟨b, hb, hexceeded, hsame, hlate⟩
      have hb : b ∈ earlier ++ [a] := by
        have hother : b ∉ between := fun hb => hbetween b hb hsame
        simpa [hother] using hb
      rwa [(hend _ (hstart.trans_lt hlate)).mp ⟨b, hb, hexceeded, hsame, rfl⟩]
    · intro hlate
      obtain ⟨b, hb, hexceeded, hsame, rfl⟩ := (hend stop hlt).mpr rfl
      exact ⟨b, append_cons earlier a between ▸ mem_append_left _ hb, hexceeded, hsame, hlate⟩
  have hopen : c.metBlock = false ↔ stop = c.request.time := by
    rw [← Bool.not_eq_true, hmet, not_lt]
    exact ⟨fun h => le_antisymm h hstop, fun h => h.le⟩
  rw [hjudged.passed_iff, hopen, haddress, hpath, passedIn,
    passedTimes_of_others (by simp [isPassed, hanswer, hrefused]) hbetween]
  exact and_congr_right fun h => by rw [h]; rfl

def logins (times : List Rat) : List Request := (replicate 6 0 ++ times).map fun t => ⟨t, "10.0.0.1", "/auth/login"⟩

theorem served_after_wait_iff_login :
    ∃ earlier a c, handleAll {} (logins [1800]) = earlier ++ a :: ([] ++ c :: []) ∧
    (logins [1800]).Pairwise (fun r s => r.time ≤ s.time) ∧ a.wait? = some 1800 ∧
    c.request.time = a.request.time + 1800 ∧ ∃ stop, ⌊stop - a.request.time⌋ = 1800 ∧
      (c.isPassed = true ↔ stop = c.request.time ∧
        (passedIn earlier "10.0.0.1" (stop - (figuresOf "/auth/login").window) stop : Int) <
          (figuresOf "/auth/login").requests) := by
  have hclock : (logins [1800]).Pairwise fun r s => r.time ≤ s.time := by decide
  refine ⟨[_, _, _, _, _], _, _, rfl, hclock, by decide +kernel, by decide +kernel, ?_⟩
  obtain ⟨stop, -, hfloor, hiff⟩ := served_after_wait_iff (logins [1800]) hclock [_, _, _, _, _] [] [] _ _ rfl 1800
    (by decide +kernel) (by simp) rfl rfl (by decide +kernel)
  exact ⟨stop, hfloor, hiff⟩

/-- Half a second is cut from the time to wait, and whoever waits that long is refused. -/
theorem refused_after_wait :
    ∃ earlier a c, handleAll {} (logins [1 / 2, 1799 + 1 / 2]) = earlier ++ a :: ([] ++ c :: []) ∧
    a.wait? = some 1799 ∧ c.request.time = a.request.time + 1799 ∧ c.isPassed = false :=
  ⟨[_, _, _, _, _, _], _, _, rfl, by decide +kernel, by decide +kernel, by decide +kernel⟩

/-! What an address is told depends on its own requests alone: limiters that look alike to it answer
it alike. -/

variable {T : Type}

structure Alike (address : String) (l m : AddressLimiter T String) : Prop where
  rules : l.rules = m.rules
  times : l.requestsOf address = m.requestsOf address
  ending : l.blocks.get? address = m.blocks.get? address

section Parts

variable {address other : String} {l m n : AddressLimiter T String}

theorem Alike.refl (address : String) (l : AddressLimiter T String) : Alike address l l := ⟨rfl, rfl, rfl⟩

theorem Alike.trans (h : Alike address l m) (h' : Alike address m n) : Alike address l n :=
  ⟨h.rules.trans h'.rules, h.times.trans h'.times, h.ending.trans h'.ending⟩

theorem Alike.put_requests (h : Alike address l m) :
    Alike address { l with requests := l.requests.put address (l.requestsOf address) }
      { m with requests := m.requests.put address (m.requestsOf address) } := by
  refine ⟨h.rules, ?_, h.ending⟩
  rw [requestsOf_put, requestsOf_put, if_pos rfl, if_pos rfl, h.times]

theorem Alike.setRequests (h : Alike address l m) (times : List T) :
    Alike address (l.setRequests address times) (m.setRequests address times) := by
  refine ⟨?_, ?_, ?_⟩
  · rw [setRequests_rules, setRequests_rules, h.rules]
  · rw [requestsOf_setRequests, requestsOf_setRequests, if_pos rfl, if_pos rfl]
  · rw [setRequests_blocks, setRequests_blocks, h.ending]

theorem alike_put_requests_of_ne (hne : address ≠ other) (times : List T) :
    Alike address { l with requests := l.requests.put other times } l := by
  refine ⟨rfl, ?_, rfl⟩
  rw [requestsOf_put, if_neg hne]

theorem alike_setRequests_of_ne (hne : address ≠ other) (times : List T) :
    Alike address (l.setRequests other times) l := by
  refine ⟨setRequests_rules times, ?_, congrArg _ (setRequests_blocks times)⟩
  rw [requestsOf_setRequests, if_neg hne]

def shut (l : AddressLimiter T String) (address : String) : Option T → AddressLimiter T String
  | some t => { l with blocks := l.blocks.put address t }
  | none => l

theorem Alike.shut (h : Alike address l m) (t : Option T) : Alike address (shut l address t) (shut m address t) := by
  cases t with
  | none => exact h
  | some t => exact ⟨h.rules, h.times, by rw [Limit.shut, Limit.shut, Keyed.get?_put_self, Keyed.get?_put_self]⟩

theorem alike_shut_of_ne (hne : address ≠ other) (t : Option T) : Alike address (Limit.shut l other t) l := by
  cases t with
  | none => exact .refl address l
  | some t => exact ⟨rfl, rfl, Keyed.get?_put_of_ne hne t l.blocks⟩

end Parts

variable [Seconds T] {address other : String} {l m : AddressLimiter T String}

/-- What a rule says of so many earlier times, and the end of the block that this brings. -/
def ruling (now : T) (address : String) (times : List T) (r : Rule) : Outcome (Verdict × Option T) :=
  (fun p => (p.1, p.2.blocks.get? address)) <$> judge { requests := [(address, times)] } now address r

theorem judge_eq (l : AddressLimiter T String) (now : T) (address : String) (r : Rule) : l.judge now address r =
    (fun p => (p.1, shut l address p.2)) <$> ruling now address (l.requestsOf address) r := by
  have htimes : requestsOf { requests := [(address, l.requestsOf address)] } address = l.requestsOf address := by
    simp [requestsOf, Keyed.get?]
  simp only [judge, ruling, recent, nextFree, htimes, map_bind]
  refine bind_congr fun times => bind_congr fun isFull => ?_
  split_ifs <;> simp [shut, block, Keyed.get?_put_self]

def settle (l : AddressLimiter T String) (address : String) :
    Outcome (Verdict × Option T) → Outcome Verdict × AddressLimiter T String
  | .ok (v, t) => (.ok v, shut l address t)
  | .error f => (.error f, l)

theorem checkUnder_of_open {now : T} (r : Rule) (h : l.blockEnd? now address = none) :
    l.checkUnder now address (.ok r) =
      settle (looked l now address) address (ruling now address ((looked l now address).requestsOf address) r) := by
  simp only [checkUnder, h, judge_eq]
  unfold looked
  cases ruling now address _ r <;> rfl

/-! A request of the address itself. -/

variable (h : Alike address l m)

include h

variable (now : T)

theorem Alike.dropEnded : Alike address (l.dropEnded now address) (m.dropEnded now address) := by
  refine ⟨?_, ?_, ?_⟩
  · rw [dropEnded_rules, dropEnded_rules, h.rules]
  · rw [dropEnded_requestsOf, dropEnded_requestsOf, h.times]
  · have he := h.ending
    unfold AddressLimiter.dropEnded
    cases hm : m.blocks.get? address with
    | none =>
      rw [hm] at he
      simp only [he, hm]
    | some t =>
      rw [hm] at he
      simp only [he]
      split_ifs
      · simp only [Keyed.get?_erase, beq_self_eq_true, if_true]
      · rw [he, hm]

theorem Alike.check (name : String) : (l.check now address name).1 = (m.check now address name).1 ∧
      Alike address (l.check now address name).2 (m.check now address name).2 := by
  have hrule : l.rule name = m.rule name := by simp only [AddressLimiter.rule, h.rules]
  have hend : l.blockEnd? now address = m.blockEnd? now address := by simp only [blockEnd?, h.ending]
  unfold AddressLimiter.check
  rw [hrule]
  cases hm : m.blockEnd? now address with
  | some t =>
    simp only [checkUnder, hend, hm]
    exact ⟨trivial, h⟩
  | none =>
    cases m.rule name with
    | error f =>
      simp only [checkUnder, hend, hm]
      exact ⟨trivial, h.dropEnded now⟩
    | ok r =>
      have hlooked : Alike address (looked l now address) (looked m now address) := (h.dropEnded now).put_requests
      rw [checkUnder_of_open r (hend.trans hm), checkUnder_of_open r hm, hlooked.times]
      cases ruling now address ((looked m now address).requestsOf address) r with
      | error f => exact ⟨rfl, hlooked⟩
      | ok p => exact ⟨rfl, hlooked.shut p.2⟩

theorem Alike.record : (l.record now address).1 = (m.record now address).1 ∧
      Alike address (l.record now address).2 (m.record now address).2 := by
  unfold AddressLimiter.record
  rw [h.rules, h.times]
  dsimp only
  split
  · exact ⟨rfl, h.setRequests _⟩
  · exact ⟨rfl, h.setRequests _⟩

theorem Alike.handle (path : String) : (l.handle now address path).1 = (m.handle now address path).1 ∧
      Alike address (l.handle now address path).2 (m.handle now address path).2 := by
  obtain ⟨hanswer, hnext⟩ := h.check now (ruleOf path)
  unfold AddressLimiter.handle
  generalize l.check now address (ruleOf path) = p at hanswer hnext ⊢
  generalize m.check now address (ruleOf path) = q at hanswer hnext ⊢
  obtain ⟨a, l'⟩ := p
  obtain ⟨b, m'⟩ := q
  obtain rfl : a = b := hanswer
  cases a with
  | error f => exact ⟨rfl, hnext⟩
  | ok v =>
    obtain ⟨hnoted, hkept⟩ := hnext.record now
    dsimp only
    split_ifs
    · exact ⟨by rw [hnoted], hkept⟩
    · exact ⟨rfl, hnext⟩

omit h

/-! A request of another address. -/

theorem alike_dropEnded_of_ne (hne : address ≠ other) (now : T) : Alike address (l.dropEnded now other) l := by
  refine ⟨dropEnded_rules, dropEnded_requestsOf _, ?_⟩
  unfold AddressLimiter.dropEnded
  split
  · split_ifs
    · simp only [Keyed.get?_erase, beq_iff_eq, if_neg hne]
    · rfl
  · rfl

theorem alike_check_of_ne (hne : address ≠ other) (now : T) (name : String) :
    Alike address (l.check now other name).2 l := by
  unfold AddressLimiter.check
  cases hend : l.blockEnd? now other with
  | some t =>
    simp only [checkUnder, hend]
    exact Alike.refl address l
  | none =>
    cases l.rule name with
    | error f =>
      simp only [checkUnder, hend]
      exact alike_dropEnded_of_ne hne now
    | ok r =>
      have hlooked : Alike address (looked l now other) l :=
        (alike_put_requests_of_ne hne _).trans (alike_dropEnded_of_ne hne now)
      rw [checkUnder_of_open r hend]
      cases ruling now other ((looked l now other).requestsOf other) r with
      | error f => exact hlooked
      | ok p => exact (alike_shut_of_ne hne p.2).trans hlooked

theorem alike_handle_of_ne (hne : address ≠ other) (now : T) (path : String) :
    Alike address (l.handle now other path).2 l := by
  have hcheck := alike_check_of_ne (l := l) hne now (ruleOf path)
  unfold AddressLimiter.handle
  generalize l.check now other (ruleOf path) = p at hcheck ⊢
  obtain ⟨a, next⟩ := p
  cases a with
  | error f => exact hcheck
  | ok v =>
    dsimp only
    split_ifs
    · unfold AddressLimiter.record
      dsimp only
      split
      · exact (alike_setRequests_of_ne hne _).trans hcheck
      · exact (alike_setRequests_of_ne hne _).trans hcheck
    · exact hcheck

structure Visit (T : Type) where
  time : T
  address : String
  path : String

def verdicts (l : AddressLimiter T String) : List (Visit T) → List (String × Outcome Verdict)
  | [] => []
  | r :: rest =>
    (r.address, (l.handle r.time r.address r.path).1) :: verdicts (l.handle r.time r.address r.path).2 rest

def toldTo (address : String) (log : List (String × Outcome Verdict)) : List (Outcome Verdict) :=
  (log.filter fun e => e.1 = address).map (·.2)

theorem Alike.toldTo (h : Alike address l m) (requests : List (Visit T)) : toldTo address (verdicts l requests) =
      (verdicts m (requests.filter fun r => r.address = address)).map (·.2) := by
  -- On the requests still to come; the two limiters look alike to the address all along.
  induction requests generalizing l m with
  | nil => rfl
  | cons r rest ih =>
    by_cases hr : r.address = address
    · subst hr
      obtain ⟨hanswer, hnext⟩ := h.handle r.time r.path
      have hrest := ih hnext
      simp only [Limit.toldTo] at hrest
      simp [Limit.toldTo, verdicts, hanswer, hrest]
    · have hother := (alike_handle_of_ne (l := l) (fun e => hr e.symm) r.time r.path).trans h
      simpa [Limit.toldTo, verdicts, hr] using ih hother

/-- What an address is told is the same in a run without the requests of all other addresses, from
any state of the limiter, under any rules. -/
theorem toldTo_eq_alone (l : AddressLimiter T String) (requests : List (Visit T))
    (address : String) :
    toldTo address (verdicts l requests) =
      (verdicts l (requests.filter fun r => r.address = address)).map (·.2) :=
  (Alike.refl address l).toldTo requests

end CodeAudit.Limit

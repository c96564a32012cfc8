import Mathlib.Data.List.Induction
import CodeAudit.Plugin

/-! Calls of one extension whose stages are mixed in every possible order. -/

namespace CodeAudit.Plugin

open List

def Act.isReadied : Act → Bool
  | readied _ => true
  | _ => false

/-- Among what calls did, at most one instance was made ready and no other was run; the clean-up
that follows cleans it. -/
structure OneInstance (acts cleanup : List Act) : Prop where
  once : acts.countP Act.isReadied ≤ 1
  ran : ∀ i, .ran i ∈ acts → .readied i ∈ acts
  cleaned : ∀ i, .readied i ∈ acts → .cleaned i ∈ cleanup

namespace Manager

def callsOf (key : String) (args : List Entries) : List Call := args.map fun a => { key, args := a }

variable (m : Manager) (key : String) (turns : List Nat)

/-- The call has taken one turn, and the instance that it made then will say that it is ready.
Instances are numbered in the order of the first turns. -/
def waits (p : Nat) : Bool :=
  turns.count p == 1 && m.getsReady key (m.made + turns.eraseDups.idxOf p)

def Quiet : Prop :=
  ∀ before p after, turns = before ++ p :: after → m.waits key before p = false

/-- When the first call learns that its instance is ready, another one waits for an instance of its
own, which will be ready too, and takes a turn later. -/
def Overlaps : Prop :=
  ∃ before p after q, turns = before ++ p :: after ∧ m.Quiet key before ∧ m.waits key before p = true ∧
    q ≠ p ∧ m.waits key before q = true ∧ q ∈ after

variable {m : Manager} {key : String} {c : Call} {calls : List Call} {turns : List Nat}

variable {p : Nat}

theorem quiet_snoc : m.Quiet key (turns ++ [p]) ↔ m.Quiet key turns ∧ m.waits key turns p = false := forall_split_snoc

theorem exists_first_of_not_quiet (h : ¬ m.Quiet key turns) :
    ∃ before p after, turns = before ++ p :: after ∧ m.Quiet key before ∧ m.waits key before p := by
  induction turns using reverseRecOn with
  | nil => exact absurd (by simp [Quiet]) h
  | append_singleton turns p ih =>
    by_cases hquiet : m.Quiet key turns
    · have hwaits : m.waits key turns p ≠ false := fun hno => h (quiet_snoc.mpr ⟨hquiet, hno⟩)
      exact ⟨turns, p, [], rfl, hquiet, Bool.of_not_eq_false hwaits⟩
    · obtain ⟨before, q, after, rfl, hbefore⟩ := ih hquiet
      exact ⟨before, q, after ++ [p], by simp, hbefore⟩

/-! One turn of a call. -/

theorem advanceAt_of_get (hc : calls[p]? = some c) :
    m.advanceAt calls p = ((m.advance c).1, calls.set p (m.advance c).2) := by
  rw [advanceAt, hc]

theorem advanceAt_of_none (hc : calls[p]? = none) : m.advanceAt calls p = (m, calls) := by rw [advanceAt, hc]

theorem advance_start_of_none (hstage : c.stage = .start) (hnone : m.instances.get? c.key = none)
    (hhas : m.extensions.has c.key) :
    m.advance c = ({ m with made := m.made + 1 }, { c with stage := .readying m.made }) := by
  have hnot : m.instances.has c.key = false := by rw [Keyed.has, hnone]; rfl
  simp [advance, hstage, hnot, hhas, make]

variable {i : Nat}

theorem advance_start_of_some (hstage : c.stage = .start) (hi : m.instances.get? c.key = some i) :
    m.advance c = ({ m with acts := m.acts ++ [.ran i] }, { c with stage := .running i }) := by
  simp [advance, hstage, Keyed.has, hi, enter]

theorem advance_readying_of_yes (hstage : c.stage = .readying i) (hyes : m.getsReady c.key i) :
    m.advance c = ({ m with instances := m.instances.put c.key i, acts := m.acts ++ [.readied i, .ran i] },
      { c with stage := .running i }) := by
  simp [advance, hstage, settle, hyes, enter, Keyed.get?_put_self]

theorem advance_readying_of_no (hstage : c.stage = .readying i) (hno : m.getsReady c.key i = false) :
    m.advance c = (m, { c with stage := .done .null }) := by
  simp [advance, hstage, settle, hno]

theorem advance_done {v : Value} (hstage : c.stage = .done v) : m.advance c = (m, c) := by rw [advance, hstage]

theorem advance_cases (m : Manager) (c : Call) : (∃ v, m.advance c = (m, { c with stage := .done v })) ∨
    (m.instances.get? c.key = none ∧
      m.advance c = ({ m with made := m.made + 1 }, { c with stage := .readying m.made })) ∨
    (∃ i, m.instances.get? c.key = some i ∧
      m.advance c = ({ m with acts := m.acts ++ [.ran i] }, { c with stage := .running i })) ∨
    ∃ i, c.stage = .readying i ∧ m.getsReady c.key i ∧
      m.advance c = ({ m with instances := m.instances.put c.key i, acts := m.acts ++ [.readied i, .ran i] },
        { c with stage := .running i }) := by
  cases hstage : c.stage with
  | start =>
    cases hget : m.instances.get? c.key with
    | some i => exact .inr (.inr (.inl ⟨i, rfl, advance_start_of_some hstage hget⟩))
    | none =>
      by_cases hhas : m.extensions.has c.key
      · exact .inr (.inl ⟨rfl, advance_start_of_none hstage hget hhas⟩)
      · have hnot : m.instances.has c.key = false := by rw [Keyed.has, hget]; rfl
        simp [advance, hstage, hnot, hhas]
  | readying i =>
    cases hready : m.getsReady c.key i with
    | true => exact .inr (.inr (.inr ⟨i, rfl, hready, advance_readying_of_yes hstage hready⟩))
    | false => exact .inl ⟨_, advance_readying_of_no hstage hready⟩
  | running i => exact .inl ⟨_, by rw [advance, hstage]⟩
  | done v =>
    refine .inl ⟨v, ?_⟩
    rw [advance_done hstage, ← hstage]

theorem advance_frame (m : Manager) (c : Call) : (m.advance c).1.extensions = m.extensions ∧
    m.acts <+: (m.advance c).1.acts ∧ (m.advance c).2.key = c.key := by
  rcases advance_cases m c with ⟨v, heq⟩ | ⟨-, heq⟩ | ⟨i, -, heq⟩ | ⟨i, -, -, heq⟩ <;> rw [heq]
  · exact ⟨rfl, prefix_refl _, rfl⟩
  · exact ⟨rfl, prefix_refl _, rfl⟩
  · exact ⟨rfl, prefix_append _ _, rfl⟩
  · exact ⟨rfl, prefix_append _ _, rfl⟩

variable {n : Manager}

theorem getsReady_congr (h : n.extensions = m.extensions) (key : String) (i : Nat) :
    n.getsReady key i = m.getsReady key i := by
  rw [getsReady, getsReady, h]

/-! Turns of all calls. -/

theorem schedule_cons (m : Manager) (calls : List Call) (p : Nat) (rest : List Nat) :
    m.schedule calls (p :: rest) = (m.advanceAt calls p).1.schedule (m.advanceAt calls p).2 rest := rfl

theorem schedule_append (m : Manager) (calls : List Call) (first rest : List Nat) :
    m.schedule calls (first ++ rest) = (m.schedule calls first).1.schedule (m.schedule calls first).2 rest := by
  rw [schedule, foldl_append]
  rfl

theorem acts_schedule (m : Manager) (calls : List Call) (turns : List Nat) :
    m.acts <+: (m.schedule calls turns).1.acts := by
  induction turns generalizing m calls with
  | nil => exact prefix_refl _
  | cons p rest ih =>
    rw [schedule_cons]
    refine List.IsPrefix.trans ?_ (ih _ _)
    cases hc : calls[p]? with
    | none => simp [advanceAt_of_none hc]
    | some c =>
      rw [advanceAt_of_get hc]
      exact (advance_frame m c).2.1

/-- Once an instance is in use and all calls that go on and still wait will be refused, all that
happens is that it runs. -/
theorem schedule_of_refused (hi : m.instances.get? key = some i)
    (hrefused : ∀ q ∈ turns, ∀ c, calls[q]? = some c →
      c.key = key ∧ ∀ j, c.stage = .readying j → m.getsReady key j = false) :
    ∃ n, (m.schedule calls turns).1 = { m with acts := m.acts ++ replicate n (.ran i) } := by
  induction turns generalizing m calls with
  | nil => exact ⟨0, by simp [schedule]⟩
  | cons p rest ih =>
    rw [schedule_cons]
    have hlater := fun q (hq : q ∈ rest) => hrefused q (mem_cons_of_mem _ hq)
    cases hc : calls[p]? with
    | none =>
      rw [advanceAt_of_none hc]
      exact ih hi hlater
    | some c =>
      obtain ⟨rfl, hstage⟩ := hrefused p mem_cons_self c hc
      -- The turn leaves the call with no instance to wait for, and all other calls as they were.
      have hnext (stage : Stage) (hnot : ∀ j, stage ≠ .readying j) (q : Nat) (hq : q ∈ rest) (d : Call)
          (hd : (calls.set p { c with stage })[q]? = some d) :
          d.key = c.key ∧ ∀ j, d.stage = .readying j → m.getsReady c.key j = false := by
        by_cases hpq : p = q
        · subst hpq
          obtain rfl : { c with stage } = d := by simpa [(List.getElem?_eq_some_iff.mp hc).1] using hd
          exact ⟨rfl, fun j hj => absurd hj (hnot j)⟩
        · exact hlater q hq d (by rwa [getElem?_set_ne hpq] at hd)
      rw [advanceAt_of_get hc]
      rcases advance_cases m c with ⟨v, heq⟩ | ⟨hnone, -⟩ | ⟨k, hk, heq⟩ | ⟨j, hj, hyes, -⟩
      · rw [heq]
        exact ih hi (hnext _ nofun)
      · rw [hi] at hnone
        cases hnone
      · obtain rfl : i = k := Option.some.inj (hi.symm.trans hk)
        rw [heq]
        obtain ⟨n, hn⟩ := ih (m := { m with acts := m.acts ++ [.ran i] }) hi (hnext (.running i) nofun)
        exact ⟨n + 1, by simp [hn, replicate_succ]⟩
      · rw [hstage j hj] at hyes
        cases hyes

/-- A call that waits for an instance that will be ready puts it in use when it goes on, whatever
others do meanwhile. -/
theorem readied_mem_schedule {q j : Nat} (hc : calls[q]? = some c) (hstage : c.stage = .readying j)
    (hyes : m.getsReady c.key j) (hq : q ∈ turns) :
    ∃ more, (m.schedule calls turns).1.acts = m.acts ++ more ∧ .readied j ∈ more := by
  induction turns generalizing m calls with
  | nil => cases hq
  | cons p rest ih =>
    rw [schedule_cons]
    by_cases hpq : p = q
    · subst hpq
      rw [advanceAt_of_get hc, advance_readying_of_yes hstage hyes]
      obtain ⟨more, hmore⟩ := acts_schedule { m with
        instances := m.instances.put c.key j, acts := m.acts ++ [.readied j, .ran j] }
        (calls.set p { c with stage := .running j }) rest
      exact ⟨[.readied j, .ran j] ++ more, by simp [← hmore], by simp⟩
    · have hq : q ∈ rest := (mem_cons.mp hq).resolve_left (Ne.symm hpq)
      cases hd : calls[p]? with
      | none =>
        rw [advanceAt_of_none hd]
        exact ih hc hyes hq
      | some d =>
        rw [advanceAt_of_get hd]
        obtain ⟨hext, ⟨new, hnew⟩, -⟩ := advance_frame m d
        obtain ⟨more, hmore, hmem⟩ := @ih (m.advance d).1 (calls.set p (m.advance d).2)
          (by rwa [getElem?_set_ne hpq]) (by rwa [getsReady_congr hext]) hq
        exact ⟨new ++ more, by rw [hmore, ← hnew, append_assoc], mem_append_right _ hmem⟩

/-! Turns before the first instance is ready. -/

def stageIn (m : Manager) (turns : List Nat) (p : Nat) : Stage :=
  match turns.count p with
  | 0 => .start
  | 1 => .readying (m.made + turns.eraseDups.idxOf p)
  | _ => .done .null

def waiting (m : Manager) (key : String) (args : List Entries) (turns : List Nat) : Manager × List Call :=
  ({ m with made := m.made + turns.eraseDups.length },
    args.mapIdx fun p a => { key, args := a, stage := m.stageIn turns p })

theorem idxOf_eraseDups_snoc {q : Nat} (h : q ∈ turns) (p : Nat) :
    (turns ++ [p]).eraseDups.idxOf q = turns.eraseDups.idxOf q := by
  rw [eraseDups_snoc, idxOf_append, if_pos (mem_eraseDups.mpr h)]

theorem stageIn_snoc_of_ne (m : Manager) {q : Nat} (h : q ≠ p) (turns : List Nat) :
    m.stageIn (turns ++ [p]) q = m.stageIn turns q := by
  have hcount : (turns ++ [p]).count q = turns.count q := by simp [h.symm]
  rw [stageIn, stageIn, hcount]
  split
  · rfl
  next hone => rw [idxOf_eraseDups_snoc (count_pos_iff.mp (by omega))]
  · rfl

theorem stageIn_snoc_self (m : Manager) (turns : List Nat) (p : Nat) : m.stageIn (turns ++ [p]) p =
    if p ∈ turns then .done .null else .readying (m.made + turns.eraseDups.length) := by
  have hcount : (turns ++ [p]).count p = turns.count p + 1 := by simp
  split
  next hmem =>
    obtain ⟨n, hn⟩ : ∃ n, turns.count p = n + 1 := Nat.exists_eq_add_one.mpr (count_pos_iff.mpr hmem)
    simp [stageIn, hn]
  next hmem => simp [stageIn, count_eq_zero.mpr hmem, eraseDups_snoc, hmem, idxOf_append]

variable {args : List Entries}

variable (hnone : m.instances.get? key = none)

include hnone

theorem advanceAt_waiting (hhas : m.extensions.has key) (hp : p < args.length)
    (hwaits : m.waits key turns p = false) :
    (m.waiting key args turns).1.advanceAt (m.waiting key args turns).2 p = m.waiting key args (turns ++ [p]) := by
  have hc : (m.waiting key args turns).2[p]? = some { key, args := args[p], stage := m.stageIn turns p } := by
    simp [waiting]
  have hset {stage : Stage} (hstage : stage = m.stageIn (turns ++ [p]) p) :
      (m.waiting key args turns).2.set p { key, args := args[p], stage } = (m.waiting key args (turns ++ [p])).2 := by
    refine ext_getElem? fun q => ?_
    by_cases hpq : p = q
    · subst hpq
      simp [waiting, hp, hstage]
    · simp [waiting, hpq, stageIn_snoc_of_ne m (Ne.symm hpq)]
  rw [advanceAt_of_get hc]
  rcases hcount : turns.count p with _ | _ | n
  · have hmem : p ∉ turns := count_eq_zero.mp hcount
    rw [advance_start_of_none (by simp [stageIn, hcount]) hnone hhas]
    refine Prod.ext ?_ (hset ?_)
    · simp [waiting, eraseDups_snoc, hmem, Nat.add_assoc]
    · simp [waiting, stageIn_snoc_self, hmem]
  · have hmem : p ∈ turns := count_pos_iff.mp (by omega)
    have hno : m.getsReady key (m.made + turns.eraseDups.idxOf p) = false := by simpa [waits, hcount] using hwaits
    rw [advance_readying_of_no (by simp [stageIn, hcount]) hno]
    refine Prod.ext ?_ (hset ?_)
    · simp [waiting, eraseDups_snoc, hmem]
    · simp [stageIn_snoc_self, hmem]
  · have hmem : p ∈ turns := count_pos_iff.mp (by omega)
    rw [advance_done (v := .null) (by simp [stageIn, hcount])]
    refine Prod.ext ?_ (hset ?_)
    · simp [waiting, eraseDups_snoc, hmem]
    · simp [stageIn, hcount]

theorem schedule_of_quiet (hhas : m.extensions.has key)
    (hturns : ∀ p ∈ turns, p < args.length) (hquiet : m.Quiet key turns) :
    m.schedule (callsOf key args) turns = m.waiting key args turns := by
  induction turns using reverseRecOn with
  | nil =>
    refine Prod.ext (by simp [schedule, waiting]) (ext_getElem? fun q => ?_)
    simp [schedule, waiting, callsOf, stageIn]
  | append_singleton turns p ih =>
    obtain ⟨hbefore, hlast⟩ := quiet_snoc.mp hquiet
    rw [schedule_append, ih (fun q hq => hturns q (by simp [hq])) hbefore]
    exact advanceAt_waiting hnone hhas (hturns p (by simp)) hlast

omit hnone in
theorem waits_iff : m.waits key turns p ↔ ∃ j, m.stageIn turns p = .readying j ∧ m.getsReady key j := by
  rw [waits, stageIn]
  split <;> simp_all

def putInUse (m : Manager) (key : String) (i made : Nat) : Manager :=
  { m with made, instances := m.instances.put key i, acts := m.acts ++ [.readied i, .ran i] }

theorem schedule_first {before after : List Nat} (hhas : m.extensions.has key)
    (hturns : ∀ q ∈ before ++ p :: after, q < args.length) (hquiet : m.Quiet key before)
    (hwaits : m.waits key before p) :
    ∃ i made calls, m.schedule (callsOf key args) (before ++ p :: after) =
      (m.putInUse key i made).schedule calls after ∧
      ∀ q < args.length, ∃ c, calls[q]? = some c ∧ c.key = key ∧
        c.stage = if q = p then .running i else m.stageIn before q := by
  obtain ⟨i, hstage, hyes⟩ := waits_iff.mp hwaits
  have hp : p < args.length := hturns p (by simp)
  have hc : (m.waiting key args before).2[p]? = some { key, args := args[p], stage := m.stageIn before p } := by
    simp [waiting]
  rw [schedule_append, schedule_of_quiet hnone hhas (fun q hq => hturns q (by simp [hq])) hquiet, schedule_cons,
    advanceAt_of_get hc, advance_readying_of_yes hstage hyes]
  refine ⟨i, _, _, rfl, fun q hq => ?_⟩
  by_cases hpq : p = q
  · subst hpq
    exact ⟨_, by simp [waiting, hp]; rfl, by simp⟩
  · exact ⟨_, by simp [waiting, hpq, hq]; rfl, by simp [Ne.symm hpq]⟩

omit hnone

def actsUntil (m n : Manager) : List Act := n.acts.drop m.acts.length

theorem actsUntil_of_append {new : List Act} (h : n.acts = m.acts ++ new) : m.actsUntil n = new := by
  rw [actsUntil, h, drop_left]

theorem actsUntil_of_putInUse {made : Nat} {more : List Act}
    (h : n.acts = (m.putInUse key i made).acts ++ more) : m.actsUntil n = .readied i :: .ran i :: more :=
  actsUntil_of_append (by rw [h, putInUse, append_assoc, cons_append, singleton_append])

theorem actsUntil_cleanup (m : Manager) : m.actsUntil m.cleanup = m.instances.map fun e => .cleaned e.2 :=
  actsUntil_of_append rfl

/-- However the stages of calls of an extension are mixed: at most one instance is made ready, all
calls run on it and the next clean-up cleans it, unless another call waits for an instance of its
own while the first one gets ready. -/
theorem calls_share_instance_iff {args : List Entries} (hnone : m.instances.get? key = none)
    (hhas : m.extensions.has key = true) (hturns : ∀ p ∈ turns, p < args.length) :
    OneInstance (m.actsUntil (m.schedule (callsOf key args) turns).1)
      ((m.schedule (callsOf key args) turns).1.actsUntil
        (m.schedule (callsOf key args) turns).1.cleanup) ↔
    ¬ m.Overlaps key turns := by
  constructor
  · rintro hone ⟨before, p, after, q, rfl, hquiet, hp, hne, hq, hafter⟩
    obtain ⟨i, n, calls, heq, hcalls⟩ := schedule_first hnone hhas hturns hquiet hp
    obtain ⟨c, hc, rfl, hstage⟩ := hcalls q (hturns q (by simp [hafter]))
    obtain ⟨j, hj, hyes⟩ := waits_iff.mp hq
    rw [if_neg hne, hj] at hstage
    obtain ⟨more, hacts, hmore⟩ := readied_mem_schedule (m := m.putInUse c.key i n) hc hstage hyes hafter
    have honce := hone.once
    rw [heq, actsUntil_of_putInUse hacts, List.countP_cons, List.countP_cons] at honce
    have hpos : 0 < more.countP Act.isReadied := List.countP_pos_iff.mpr ⟨_, hmore, rfl⟩
    have htrue : (Act.readied i).isReadied = true := rfl
    rw [if_pos htrue] at honce
    omega
  · intro hno
    by_cases hquiet : m.Quiet key turns
    · have hacts : m.actsUntil (m.waiting key args turns).1 = [] := actsUntil_of_append (List.append_nil _).symm
      rw [schedule_of_quiet hnone hhas hturns hquiet, hacts]
      exact ⟨by simp, by simp, by simp⟩
    · obtain ⟨before, p, after, rfl, hquiet, hp⟩ := exists_first_of_not_quiet hquiet
      obtain ⟨i, n, calls, heq, hcalls⟩ := schedule_first hnone hhas hturns hquiet hp
      have hi : (m.putInUse key i n).instances.get? key = some i := Keyed.get?_put_self _ _ _
      have hrefused : ∀ q ∈ after, ∀ c, calls[q]? = some c →
          c.key = key ∧ ∀ j, c.stage = .readying j → m.getsReady key j = false := by
        intro q hq c hc
        obtain ⟨d, hd, hkey, hstage⟩ := hcalls q (hturns q (by simp [hq]))
        obtain rfl : c = d := Option.some.inj (hc.symm.trans hd)
        refine ⟨hkey, fun j hj => Bool.eq_false_iff.mpr fun hyes => hno ?_⟩
        rw [hj] at hstage
        split at hstage
        · cases hstage
        next hne => exact ⟨before, p, after, q, rfl, hquiet, hp, hne, waits_iff.mpr ⟨j, hstage.symm, hyes⟩, hq⟩
      obtain ⟨k, hk⟩ := schedule_of_refused hi hrefused
      rw [heq, actsUntil_of_putInUse (congrArg Manager.acts hk), actsUntil_cleanup]
      refine ⟨by simp [List.countP_cons, List.countP_replicate, Act.isReadied], by simp, fun l hl => ?_⟩
      obtain rfl : l = i := by simpa using hl
      rw [hk]
      exact List.mem_map.mpr ⟨_, Keyed.mem_of_get? hi, rfl⟩

theorem calls_share_instance_iff_refused : let m : Manager :=
      { extensions := [("a", { name := .text "a", ready := fun i => if i = 0 then none else some (.bool true) })] }
    m.instances.get? "a" = none ∧ m.extensions.has "a" = true ∧ (∀ p ∈ [0, 1, 0, 1, 2, 2, 1], p < 3) ∧
      ¬ m.Overlaps "a" [0, 1, 0, 1, 2, 2, 1] := by
  intro m
  have hturns : ∀ p ∈ [0, 1, 0, 1, 2, 2, 1], p < [([] : Entries), [], []].length := by decide
  refine ⟨rfl, rfl, hturns, (calls_share_instance_iff rfl rfl hturns).mp ?_⟩
  change OneInstance [.readied 1, .ran 1, .ran 1] [.cleaned 1]
  exact ⟨by decide, by simp, by simp⟩

/-- Two calls that begin one after the other before any instance is ready: both make one ready, and
the first of the two is never cleaned up. -/
theorem two_instances_readied :
    ∃ m : Manager, m.instances.get? "a" = none ∧ m.extensions.has "a" = true ∧
    m.actsUntil (m.schedule (callsOf "a" [[], []]) [0, 1, 0, 1]).1 =
      [.readied 0, .ran 0, .readied 1, .ran 1] ∧
    (m.schedule (callsOf "a" [[], []]) [0, 1, 0, 1]).1.actsUntil
      (m.schedule (callsOf "a" [[], []]) [0, 1, 0, 1]).1.cleanup = [.cleaned 1] ∧
    ¬ OneInstance [.readied 0, .ran 0, .readied 1, .ran 1] [.cleaned 1] :=
  ⟨{ extensions := [("a", { name := .text "a" })] }, rfl, rfl, rfl, rfl, fun h => absurd h.once (by decide)⟩

end Manager

end CodeAudit.Plugin

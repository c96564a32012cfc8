import Mathlib.Data.List.Induction
import CodeAudit.Analyzer.Registry

/-! The life of an analyzer under every order of calls. An account tells, from the calls alone,
which job is at hand and which files were written since the last clean-up; the analyzer agrees with
it after every run. -/

namespace CodeAudit.Analyzer

open Option List

/-- A call on an analyzer. Its work may go differently each time, so a call brings the work
along. -/
inductive LifeCall where
  | accept (e : Engine) (job : Job)
  | analyze (e : Engine)
  | createTemp (d : Draft)
  | cleanup

variable (e : Engine)

def Engine.answer : Outcome Value → Outcome Value
  | .ok v => .ok v
  | .error f => e.category.map fun c => Bench.failure c f

theorem Engine.answer_of_category {e : Engine} {c : Category} (h : e.category = .ok c) (result : Outcome Value) :
    (∃ v, result = .ok v ∧ e.answer result = .ok v) ∨
      ∃ f, result = .error f ∧ e.answer result = .ok (Bench.failure c f) := by
  cases result with
  | ok v => exact .inl ⟨v, rfl, rfl⟩
  | error f => exact .inr ⟨f, rfl, by rw [answer, h]; rfl⟩

theorem analyze_idle {b : Bench} (h : b.ready = false) : Bench.analyze e b = (.error notReady, b) := by
  simp [Bench.analyze, h]

theorem analyze_eq {b : Bench} {job : Job} (hready : b.ready) (hjob : b.job = some job) :
    Bench.analyze e b = (e.answer (e.analysis job).result, b.writeAll (e.analysis job).drafts) := by
  simp only [Bench.analyze, hready, hjob]
  cases (e.analysis job).result <;> rfl

def Bench.next (b : Bench) : LifeCall → Bench
  | .accept e job => (Bench.accept e job b).2
  | .analyze e => (Bench.analyze e b).2
  | .createTemp d => (Bench.createTemp d b).2
  | .cleanup => b.cleanup

def Bench.run (b : Bench) (calls : List LifeCall) : Bench := calls.foldl Bench.next b

structure Account where
  job : Option Job := none
  drafts : List Draft := []

variable (a : Account)

def Account.add (ds : List Draft) : Account := { a with drafts := a.drafts ++ ds }

theorem Account.add_nil : a.add [] = a := by rw [add, append_nil]

def Account.next : LifeCall → Account
  | .accept e job => if a.job.isSome then a else { a with job := some job }.add (e.setup job).drafts
  | .analyze e => a.add ((a.job.map fun job => (e.analysis job).drafts).getD [])
  | .createTemp d => a.add ((a.job.map fun _ => [d]).getD [])
  | .cleanup => {}

def account (calls : List LifeCall) : Account := calls.foldl Account.next {}

/-- The files that exist are `others`, which were there before, and those of the given drafts, which
are recorded. -/
structure Holds (others : List (Nat × Draft)) (drafts : List Draft) (b : Bench) : Prop where
  files : ∃ own, b.disk = others ++ own ∧ own.map Prod.snd = drafts ∧ b.recorded = own.map Prod.fst
  bounded : ∀ f ∈ b.disk, f.1 < b.made
  apart : ∀ f ∈ others, f.1 ∉ b.recorded

section

variable {others : List (Nat × Draft)} {drafts : List Draft} {b : Bench}

variable (h : Holds others drafts b)

include h

theorem Holds.write (d : Draft) : Holds others (drafts ++ [d]) (b.write d) := by
  obtain ⟨⟨own, hdisk, hdrafts, hrecorded⟩, hbounded, hapart⟩ := h
  refine ⟨⟨own ++ [(b.made, d)], ?_, ?_, ?_⟩, ?_, ?_⟩
  · rw [Bench.write, hdisk, append_assoc]
  · rw [map_append, hdrafts]
    rfl
  · rw [Bench.write, hrecorded, map_append]
    rfl
  · intro f hf
    rcases mem_append.mp hf with hf | hf
    · exact Nat.lt_succ_of_lt (hbounded f hf)
    · rw [mem_singleton.mp hf]
      exact Nat.lt_succ_self b.made
  · intro f hf hmem
    rcases mem_append.mp hmem with hmem | hmem
    · exact hapart f hf hmem
    · -- The number of a new file is above those of all files that exist.
      have hlt := hbounded f (hdisk ▸ mem_append_left own hf)
      exact Nat.ne_of_lt hlt (mem_singleton.mp hmem)

theorem Holds.writeAll (ds : List Draft) : Holds others (drafts ++ ds) (b.writeAll ds) := by
  induction ds generalizing b drafts with
  | nil => rwa [append_nil]
  | cons d ds ih =>
    rw [append_cons]
    exact ih (h.write d)

theorem Holds.with_job (job : Option Job) (ready : Bool) :
    Holds others drafts { b with job, ready } := ⟨h.files, h.bounded, h.apart⟩

theorem Holds.disk_cleanup : b.cleanup.disk = others := by
  obtain ⟨⟨own, hdisk, -, hrecorded⟩, -, hapart⟩ := h
  change b.disk.filter (fun f => !b.recorded.contains f.1) = others
  rw [hdisk, filter_append, filter_eq_self.mpr, filter_eq_nil_iff.mpr, append_nil]
  · intro f hf
    simpa [hrecorded] using ⟨f.2, hf⟩
  · intro f hf
    simpa using hapart f hf

theorem Holds.cleanup : Holds others [] b.cleanup := by
  refine ⟨⟨[], ?_, rfl, rfl⟩, ?_, fun _ _ => not_mem_nil⟩
  · rw [h.disk_cleanup, append_nil]
  · intro f hf
    exact h.bounded f (mem_filter.mp hf).1

omit h

structure Bench.Agrees (others : List (Nat × Draft)) (b : Bench) (a : Account) : Prop where
  job : b.job = a.job
  ready : b.ready = a.job.isSome
  holds : Holds others a.drafts b

theorem writeAll_job (b : Bench) (ds : List Draft) :
    (b.writeAll ds).job = b.job ∧ (b.writeAll ds).ready = b.ready := by
  induction ds generalizing b with
  | nil => exact ⟨rfl, rfl⟩
  | cons d ds ih => exact ih (b.write d)

variable {a : Account}

theorem Bench.Agrees.writeAll (h : b.Agrees others a) (ds : List Draft) :
    (b.writeAll ds).Agrees others (a.add ds) := by
  obtain ⟨hjob, hready⟩ := writeAll_job b ds
  exact ⟨hjob.trans h.job, hready.trans h.ready, h.holds.writeAll ds⟩

theorem Bench.Agrees.next (h : b.Agrees others a) (call : LifeCall) : (b.next call).Agrees others (a.next call) := by
  cases call with
  | accept e job =>
    simp only [Bench.next, Bench.accept, Account.next, h.ready]
    cases a.job with
    | some first => exact h
    | none => exact (⟨rfl, rfl, h.holds.with_job ..⟩ : Bench.Agrees others _ { a with job := some job }).writeAll _
  | analyze e =>
    rw [Bench.next, Account.next]
    cases hheld : a.job with
    | none =>
      have hready : b.ready = false := by rw [h.ready, hheld, isSome_none]
      rw [analyze_idle e hready, map_none, getD_none, Account.add_nil]
      exact h
    | some job =>
      have hready : b.ready := by rw [h.ready, hheld, isSome_some]
      rw [analyze_eq e hready (h.job.trans hheld), map_some]
      exact h.writeAll _
  | createTemp d =>
    simp only [Bench.next, Bench.createTemp, Account.next, h.job]
    cases a.job with
    | none =>
      rw [map_none, getD_none, Account.add_nil]
      exact h
    | some job => exact h.writeAll [d]
  | cleanup => exact ⟨rfl, rfl, h.holds.cleanup⟩

end

def opened (others : List (Nat × Draft)) (made : Nat) : Bench := { disk := others, made }

theorem agrees_run {others : List (Nat × Draft)} {made : Nat} (h : ∀ f ∈ others, f.1 < made) (calls : List LifeCall) :
    ((opened others made).run calls).Agrees others (account calls) := by
  induction calls using List.reverseRecOn with
  | nil => exact ⟨rfl, rfl, ⟨⟨[], (append_nil _).symm, rfl, rfl⟩, h, fun _ _ => not_mem_nil⟩⟩
  | append_singleton calls call ih =>
    rw [Bench.run, account, foldl_append, foldl_append]
    exact ih.next call

end CodeAudit.Analyzer

import Mathlib.Analysis.SpecialFunctions.Exp
import CodeAudit.Scoring

/-! The scores in exact arithmetic: they stay between 0 and 100, and worse measures never give a
better total. -/

namespace CodeAudit.Scoring

open List Set

variable {K : Type} [Field K] [LinearOrder K]

/-- What is used of `exp (-x)`. -/
structure Decays (decay : K → K) : Prop where
  antitone : AntitoneOn decay (Ici 0)
  pos : ∀ ⦃x⦄, 0 ≤ x → 0 < decay x
  zero : decay 0 = 1

/-- What is not given counts as none. -/
structure Measures.Proper (m : Measures K) : Prop where
  counts : ∀ e ∈ m.counts, 0 ≤ e.2
  complexity : 0 ≤ m.complexity
  maxComplexity : 0 < m.maxComplexity
  coverage : m.coverage.getD 0 ∈ Icc 0 100
  smells : 0 ≤ m.smells.getD 0

/-- Counts that went up or came in, no fewer smells, no less complexity and no more coverage. -/
structure Measures.Worse (m m' : Measures K) : Prop where
  counts : SublistForall₂ (fun e e' => e.1 = e'.1 ∧ e.2 ≤ e'.2) m.counts m'.counts
  complexity : m.complexity ≤ m'.complexity
  maxComplexity : m.maxComplexity = m'.maxComplexity
  coverage : m'.coverage.getD 0 ≤ m.coverage.getD 0
  smells : m.smells.getD 0 ≤ m'.smells.getD 0

/-- The part of a penalty that a number costs. -/
def share (decay : K → K) (factor x : K) : K := 1 - decay (factor * x)

variable {m : Measures K} {decay : K → K} {factor x y : K}

theorem share_zero (h : Decays decay) : share decay factor 0 = 0 := by rw [share, mul_zero, h.zero, sub_self]

variable [IsStrictOrderedRing K]

theorem nonnegative_eq (x : K) : nonnegative x = max 0 x := by norm_num [nonnegative, max_def_lt]

theorem weight?_nonneg (severity : String) : (0 : K) ≤ (weight? severity).getD 0 := by
  unfold weight?
  split <;> norm_num

theorem penalty_eq_sum (counts : List (String × K)) :
    penalty decay counts = (counts.map fun e => (severityPenalty decay e.1 e.2).getD 0).sum := by
  rw [penalty, sum_eq_foldl, foldl_map]
  norm_num
  congr
  funext sum ⟨severity, n⟩
  cases severityPenalty decay severity n <;> simp

theorem maintainabilityScore_eq (m : Measures K) : maintainabilityScore decay m.complexity m.coverage =
    min (50 * (1 - share decay 0.1 m.complexity) + 50 * (m.coverage.getD 0 / 100)) 100 := by
  simp only [maintainabilityScore, min_def_lt, share]
  cases m.coverage <;> norm_num

variable (h : Decays decay)

include h

theorem share_mono (hfactor : 0 ≤ factor) (hx : 0 ≤ x) (hxy : x ≤ y) :
    share decay factor x ≤ share decay factor y := by
  have hle := mul_le_mul_of_nonneg_left hxy hfactor
  have hnonneg := mul_nonneg hfactor hx
  exact sub_le_sub_left (h.antitone hnonneg (hnonneg.trans hle) hle) 1

theorem share_mem (hfactor : 0 ≤ factor) (hx : 0 ≤ x) : 0 ≤ share decay factor x ∧ share decay factor x < 1 :=
  ⟨(share_zero h).symm.trans_le (share_mono h hfactor le_rfl hx), sub_lt_self 1 (h.pos (mul_nonneg hfactor hx))⟩

theorem severityPenalty_eq (hx : 0 ≤ x) (severity : String) :
    (severityPenalty decay severity x).getD 0 = (weight? severity).getD 0 * share decay 0.1 x := by
  unfold severityPenalty
  split_ifs with hpos
  · cases (weight? severity : Option K) <;> norm_num [share]
  · norm_num at hpos
    rw [le_antisymm hpos hx, share_zero h, mul_zero]
    rfl

theorem penalty_mono {counts counts' : List (String × K)} (hcounts : ∀ e ∈ counts, 0 ≤ e.2)
    (hcounts' : ∀ e ∈ counts', 0 ≤ e.2) (hle : SublistForall₂ (fun e e' => e.1 = e'.1 ∧ e.2 ≤ e'.2) counts counts') :
    penalty decay counts ≤ penalty decay counts' := by
  have hcost {severity : String} {x y : K} (hx : 0 ≤ x) (hxy : x ≤ y) :
      (severityPenalty decay severity x).getD 0 ≤ (severityPenalty decay severity y).getD 0 := by
    rw [severityPenalty_eq h hx, severityPenalty_eq h (hx.trans hxy)]
    exact mul_le_mul_of_nonneg_left (share_mono h (by norm_num) hx hxy) (weight?_nonneg severity)
  have hcost_nonneg {e : String × K} (he : 0 ≤ e.2) : 0 ≤ (severityPenalty decay e.1 e.2).getD 0 := by
    simpa [severityPenalty_eq h le_rfl, share_zero h] using hcost le_rfl he
  rw [penalty_eq_sum, penalty_eq_sum]
  induction hle with
  | nil => exact sum_nonneg (forall_mem_map.mpr fun e he => hcost_nonneg (hcounts' e he))
  | @cons e e' _ _ he _ ih =>
    obtain ⟨severity, n⟩ := e
    obtain ⟨rfl, hn⟩ := he
    rw [forall_mem_cons] at hcounts hcounts'
    exact add_le_add (hcost hcounts.1 hn) (ih hcounts.2 hcounts'.2)
  | cons_right _ ih =>
    rw [forall_mem_cons] at hcounts'
    exact (ih hcounts hcounts'.2).trans (le_add_of_nonneg_left (hcost_nonneg hcounts'.1))

theorem qualityScore_eq (m : Measures K) : qualityScore decay m.complexity m.maxComplexity m.smells =
    max 0 (100 - 60 * min (m.complexity / m.maxComplexity) 1 - 40 * share decay 0.05 (m.smells.getD 0)) := by
  simp only [qualityScore, nonnegative_eq, min_def_lt, share]
  cases m.smells <;> norm_num [h.zero]

/-- All scores lie between 0 and 100, and no change for the worse gives a better total. -/
theorem scores_bounded_and_antitone (hm : m.Proper) :
    (score decay m).security ∈ Icc 0 100 ∧ (score decay m).quality ∈ Icc 0 100 ∧
    (score decay m).maintainability ∈ Icc 0 100 ∧ (score decay m).total ∈ Icc 0 100 ∧
    ∀ m' : Measures K, m'.Proper → m.Worse m' → (score decay m').total ≤ (score decay m).total := by
  have htenth : (0 : K) ≤ 0.1 := by norm_num
  have htwentieth : (0 : K) ≤ 0.05 := by norm_num
  have hsecurity : securityScore decay m.counts ∈ Icc 0 100 := by
    have hpenalty := penalty_mono h (forall_mem_nil _) hm.counts .nil
    norm_num [securityScore, nonnegative_eq, totalWeight, penalty] at hpenalty ⊢
    linarith
  have hquality : qualityScore decay m.complexity m.maxComplexity m.smells ∈ Icc 0 100 := by
    have hsmells := (share_mem h htwentieth hm.smells).1
    have hload := le_min (div_nonneg hm.complexity hm.maxComplexity.le) zero_le_one
    rw [qualityScore_eq h]
    exact ⟨le_max_left _ _, max_le (by norm_num) (by linarith)⟩
  have hmaintainability : maintainabilityScore decay m.complexity m.coverage ∈ Icc 0 100 := by
    have hsimple := (share_mem h htenth hm.complexity).2
    have hcovered := hm.coverage.1
    rw [maintainabilityScore_eq]
    exact ⟨le_min (by linarith) (by norm_num), min_le_right _ _⟩
  refine ⟨hsecurity, hquality, hmaintainability, ?_, fun m' hm' hworse => ?_⟩
  · norm_num [score] at *
    constructor <;> linarith
  · have hfindings := penalty_mono h hm.counts hm'.counts hworse.counts
    have hsmells := share_mono h htwentieth hm.smells hworse.smells
    have hcomplexity := share_mono h htenth hm.complexity hworse.complexity
    have hload := min_le_min_right 1 (div_le_div_of_nonneg_right hworse.complexity hm.maxComplexity.le)
    have hrisk : securityScore decay m'.counts ≤ securityScore decay m.counts := by
      norm_num only [securityScore, nonnegative_eq, totalWeight]
      exact max_le_max_left 0 (by linarith)
    have hless : qualityScore decay m'.complexity m'.maxComplexity m'.smells ≤
        qualityScore decay m.complexity m.maxComplexity m.smells := by
      rw [qualityScore_eq h, qualityScore_eq h, ← hworse.maxComplexity]
      exact max_le_max_left 0 (by linarith)
    have hharder : maintainabilityScore decay m'.complexity m'.coverage ≤
        maintainabilityScore decay m.complexity m.coverage := by
      rw [maintainabilityScore_eq, maintainabilityScore_eq]
      exact min_le_min_right 100 (by linarith [hworse.coverage])
    norm_num [score]
    linarith

omit h

theorem scores_bounded_and_antitone_exp :
    let m : Measures ℝ := ⟨[("critical", 1)], 4, 10, some 80, none⟩
    let m' : Measures ℝ := ⟨[("critical", 2), ("style", 3)], 12, 10, some 70, some 5⟩
    let fall : ℝ → ℝ := fun x => Real.exp (-x)
    (score fall m).total ∈ Icc 0 100 ∧ (score fall m').total ≤ (score fall m).total := by
  intro m m' fall
  have hfall : Decays fall :=
    ⟨fun x _ y _ hxy => Real.exp_le_exp.mpr (neg_le_neg hxy), fun x _ => Real.exp_pos _, by simp [fall]⟩
  have hm : m.Proper := by constructor <;> simp [m]; norm_num
  have hm' : m'.Proper := by constructor <;> simp [m']; norm_num
  have hworse : m.Worse m' := by
    refine ⟨.cons (by simp) .nil, ?_, rfl, ?_, ?_⟩
    all_goals norm_num [m, m']
  have hall := scores_bounded_and_antitone hfall hm
  exact ⟨hall.2.2.2.1, hall.2.2.2.2 m' hm' hworse⟩

end CodeAudit.Scoring

import CodeAudit.Proofs.SecurityAudit

/-! How one more finding changes the score of an audit. -/

namespace CodeAudit.Audit

open List

def hundredths (x : ℚ) : Nat := Decimal.places 2 x.num.natAbs x.den

variable (findings : List Finding)

def exactScore : ℚ := if findings.isEmpty then 1 else hundredths (baseScore findings) / 100

theorem rounds_hundredths {x : ℚ} (h : 0 ≤ x) : Rounds (100 * x) (hundredths x) := by
  have hnum : ((x.num.natAbs : Nat) : ℚ) = x.num := by rw [Nat.cast_natAbs, abs_of_nonneg (Rat.num_nonneg.mpr h)]
  have hscaled : ((x.num.natAbs * 100 : Nat) : ℚ) / x.den = 100 * x := by
    rw [Nat.cast_mul, hnum, mul_div_right_comm, Rat.num_div_den, mul_comm]
    rfl
  exact hscaled ▸ rounds_roundDiv (x.num.natAbs * 100) x.den_pos

theorem hundredths_mono {x y : ℚ} (hx : 0 ≤ x) (h : x ≤ y) : hundredths x ≤ hundredths y :=
  (rounds_hundredths hx).le (rounds_hundredths (hx.trans h)) (by linarith)

theorem hundredths_lt {x y : ℚ} (hx : 0 ≤ x) (h : x + 1 / 100 < y) : hundredths x < hundredths y := by
  have hlow := (rounds_hundredths hx).low
  have hhigh := (rounds_hundredths (show 0 ≤ y by linarith)).high
  have hlt : (hundredths x : ℚ) < hundredths y := by linarith
  exact_mod_cast hlt

def tenthsOf : Nat := findings.foldl (fun sum f => sum + f.tenths) 0

variable {findings : List Finding}

theorem tenthsOf_snoc (findings : List Finding) (f : Finding) :
    tenthsOf (findings ++ [f]) = tenthsOf findings + f.tenths := by
  simp [tenthsOf]

theorem tenthsOf_le (h : Weighty findings) : tenthsOf findings ≤ 10 * findings.length := by
  induction findings using reverseRecOn with
  | nil => exact le_rfl
  | append_singleton rest f ih =>
    have hrest := ih fun g hg => h g (mem_append_left _ hg)
    have hf := (h f (by simp)).2
    rw [tenthsOf_snoc, length_append, length_singleton]
    omega

theorem total_severity (findings : List Finding) :
    findings.foldl (fun sum f => sum + f.severity) (0 : ℚ) = tenthsOf findings / 10 := by
  induction findings using reverseRecOn with
  | nil => simp [tenthsOf]
  | append_singleton rest f ih =>
    have hf : (f.severity : ℚ) = f.tenths / 10 := by
      refine Rat.ofScientific_true_def.trans ?_
      rw [Rat.mkRat_eq_div, pow_one]
      rfl
    rw [foldl_append, ih, tenthsOf_snoc, Nat.cast_add, add_div, ← hf]
    rfl

theorem baseScore_eq (h : Weighty findings) (hne : findings ≠ []) :
    (baseScore findings : ℚ) = 1 - tenthsOf findings / (10 * findings.length) ∧ (0 : ℚ) ≤ baseScore findings := by
  have hpos : (0 : ℚ) < findings.length := by exact_mod_cast length_pos_iff.mpr hne
  have hle : (tenthsOf findings : ℚ) ≤ 10 * findings.length := by exact_mod_cast tenthsOf_le h
  have hmean : (tenthsOf findings : ℚ) / (10 * findings.length) ≤ 1 := by
    rw [div_le_one (by linarith)]
    exact hle
  have hbase : (baseScore findings : ℚ) = 1 - tenthsOf findings / (10 * findings.length) := by
    rw [baseScore, total_severity, div_div]
    split_ifs with hscore
    · norm_num
    · norm_num at hscore ⊢
      linarith
  exact ⟨hbase, by rw [hbase]; linarith⟩

theorem exactScore_of_ne_nil (hne : findings ≠ []) : exactScore findings = hundredths (baseScore findings) / 100 := by
  rw [exactScore, if_neg (by simpa using hne)]

theorem weighty_auditSecurity (i : Syntax.Interpreter) (source : String) :
    Weighty (auditSecurity i source).findings := by
  unfold auditSecurity
  split
  · exact weighty_scan _
  · simp [Weighty]
  · simp [Weighty]

variable {f : Finding}

theorem baseScore_snoc (h : Weighty (findings ++ [f])) (hne : findings ≠ []) :
    (baseScore (findings ++ [f]) : ℚ) = baseScore findings +
      (tenthsOf findings - findings.length * f.tenths) / (10 * findings.length * (findings.length + 1)) := by
  have hpos : (0 : ℚ) < findings.length := by exact_mod_cast length_pos_iff.mpr hne
  rw [(baseScore_eq h (by simp)).1, (baseScore_eq (fun g hg => h g (mem_append_left _ hg)) hne).1, tenthsOf_snoc,
    length_append, length_singleton]
  push_cast
  field_simp
  ring

/-- Every audit finds things of such severities. For all of them a further finding that is at least
as severe as the mean lowers the score or leaves it, and one that is at most as severe raises it or
leaves it; it is raised for sure if the rounding cannot hide it. -/
theorem score_follows_mean (findings : List Finding) (f : Finding) (h : Weighty (findings ++ [f])) :
    (∀ i source, Weighty (auditSecurity i source).findings) ∧
    (tenthsOf findings ≤ findings.length * f.tenths →
      exactScore (findings ++ [f]) ≤ exactScore findings) ∧
    (findings ≠ [] → findings.length * f.tenths ≤ tenthsOf findings →
      exactScore findings ≤ exactScore (findings ++ [f])) ∧
    (findings ≠ [] →
      findings.length * (findings.length + 1) <
        10 * (tenthsOf findings - findings.length * f.tenths) →
        exactScore findings < exactScore (findings ++ [f])) := by
  refine ⟨weighty_auditSecurity, ?_⟩
  have hnew : findings ++ [f] ≠ [] := by simp
  have hold : Weighty findings := fun g hg => h g (List.mem_append_left _ hg)
  obtain ⟨hbase, hnonneg⟩ := baseScore_eq h hnew
  rw [exactScore_of_ne_nil hnew]
  by_cases hne : findings = []
  · have hone : hundredths (baseScore (findings ++ [f])) ≤ hundredths 1 := by
      refine hundredths_mono hnonneg ?_
      rw [hbase, sub_le_self_iff]
      positivity
    have hle : (hundredths (baseScore (findings ++ [f])) : ℚ) ≤ 100 := by exact_mod_cast hone
    refine ⟨fun _ => ?_, fun h => absurd hne h, fun h => absurd hne h⟩
    rw [exactScore, if_pos (by simpa using hne)]
    linarith
  · have hpos : (0 : ℚ) < findings.length := by exact_mod_cast List.length_pos_iff.mpr hne
    have hden : (0 : ℚ) < 10 * findings.length * (findings.length + 1) := by positivity
    have hnonneg' := (baseScore_eq hold hne).2
    have hsnoc := baseScore_snoc h hne
    have hscale {a b : Nat} (hab : a ≤ b) : (a : ℚ) / 100 ≤ b / 100 := by
      exact div_le_div_of_nonneg_right (by exact_mod_cast hab) (by norm_num)
    rw [exactScore_of_ne_nil hne]
    refine ⟨fun hle => hscale (hundredths_mono hnonneg ?_), fun _ hge => hscale (hundredths_mono hnonneg' ?_),
      fun _ hfar => ?_⟩
    · have hcast : (tenthsOf findings : ℚ) ≤ findings.length * f.tenths := by exact_mod_cast hle
      rw [hsnoc, add_le_iff_nonpos_right]
      exact div_nonpos_of_nonpos_of_nonneg (sub_nonpos.mpr hcast) hden.le
    · have hcast : (findings.length * f.tenths : ℚ) ≤ tenthsOf findings := by exact_mod_cast hge
      rw [hsnoc, le_add_iff_nonneg_right]
      exact div_nonneg (sub_nonneg.mpr hcast) hden.le
    · have hnat : findings.length * (findings.length + 1) + 10 * (findings.length * f.tenths) <
          10 * tenthsOf findings := by omega
      have hcast : (findings.length * (findings.length + 1) + 10 * (findings.length * f.tenths) : ℚ) <
          10 * tenthsOf findings := by exact_mod_cast hnat
      have hlt := hundredths_lt hnonneg' (y := baseScore (findings ++ [f])) (by
        rw [hsnoc, add_lt_add_iff_left, lt_div_iff₀ hden]
        linarith)
      exact div_lt_div_of_pos_right (by exact_mod_cast hlt) (by norm_num)

def secret : Finding where
  kind := "hardcoded_secret"
  message := ""
  tenths := 9
  line := some 1

theorem score_follows_mean_severe : Weighty [secret, { secret with tenths := 10 }] ∧
    exactScore [secret, { secret with tenths := 10 }] ≤ exactScore [secret] := by
  have h : Weighty [secret, { secret with tenths := 10 }] := by simp [Weighty, secret]
  exact ⟨h, (score_follows_mean [secret] { secret with tenths := 10 } h).2.1 (by decide)⟩

/-- A second finding raises the score from a tenth to a quarter, in floating numbers too. -/
theorem finding_raises_score :
    ∃ (findings : List Finding) (f : Finding), Weighty (findings ++ [f]) ∧
    exactScore findings = 1 / 10 ∧ exactScore (findings ++ [f]) = 1 / 4 ∧
    securityScore findings = 0.1 ∧ securityScore (findings ++ [f]) = 0.25 := by
  refine ⟨[secret], { secret with tenths := 6 }, by simp [Weighty, secret], ?_⟩
  decide +kernel

end CodeAudit.Audit

import CodeAudit.Proofs.FiniteFloat

/-! Sums, differences and quotients between bounds. The exact result is rounded to one of its
neighbours of 53 binary digits, so it never passes a bound that has 53 digits itself. -/

namespace CodeAudit

open Nat Float.Model UnpackedFloat Format ExtendedMantissa

def OnGrid (q : ℚ) : Prop := ∃ (j : Nat) (i : Int), j ≤ 2 ^ 53 ∧ -1074 ≤ i ∧ q = j * 2 ^ i

structure RoundsTo (q r : ℚ) : Prop where
  below : ∀ b, OnGrid b → b ≤ q → b ≤ r
  above : ∀ b, OnGrid b → q ≤ b → r ≤ b
  close : ∃ t : Int, (t = -1074 ∨ 2 ^ (t + 52) ≤ q) ∧ r ≤ q + 2 ^ t / 2

theorem RoundsTo.refl (q : ℚ) : RoundsTo q q :=
  ⟨fun _ _ h => h, fun _ _ h => h, -1074, .inl rfl, le_add_of_nonneg_right (by positivity)⟩

variable {r : ℚ}

theorem RoundsTo.eq {q : ℚ} (h : RoundsTo q r) (hq : OnGrid q) : r = q :=
  le_antisymm (h.above q hq le_rfl) (h.below q hq le_rfl)

variable {n : Nat}

theorem onGrid_natCast (h : n ≤ 2 ^ 53) : OnGrid n := ⟨n, 0, h, by norm_num, by simp⟩

theorem onGrid_half (h : n ≤ 2 ^ 53) : OnGrid (n / 2) := ⟨n, -1, h, by norm_num, by rw [zpow_neg_one]; rfl⟩

theorem RoundsTo.dist_le {q : ℚ} (h : RoundsTo q r) {i : Int} (hi : -1074 ≤ i) (hnonneg : 0 ≤ q)
    (hbound : q ≤ 2 ^ 53 * 2 ^ i) : q - 2 ^ i ≤ r ∧ r ≤ q + 2 ^ i := by
  have hunit : (0 : ℚ) < 2 ^ i := by positivity
  have hsteps : 0 ≤ q / 2 ^ i := by positivity
  have hmost : q / 2 ^ i ≤ (2 ^ 53 : Nat) := by
    rw [div_le_iff₀ hunit]
    exact_mod_cast hbound
  have hfloor := h.below (⌊q / 2 ^ i⌋₊ * 2 ^ i) ⟨_, i, cast_le.mp ((floor_le hsteps).trans hmost), hi, rfl⟩
    ((le_div_iff₀ hunit).mp (floor_le hsteps))
  have hceil := h.above (⌈q / 2 ^ i⌉₊ * 2 ^ i) ⟨_, i, ceil_le.mpr hmost, hi, rfl⟩
    ((div_le_iff₀ hunit).mp (le_ceil _))
  have hbelow := (div_lt_iff₀ hunit).mp (lt_floor_add_one (q / 2 ^ i))
  have habove := mul_lt_mul_of_pos_right (ceil_lt_add_one hsteps) hunit
  rw [add_mul] at hbelow habove
  rw [div_mul_cancel₀ _ hunit.ne'] at habove
  constructor <;> linarith

theorem two_zpow_lt_iff {i j : Int} : (2 : ℚ) ^ i < 2 ^ j ↔ i < j := zpow_lt_zpow_iff_right₀ (by norm_num)

theorem RoundsTo.small {q : ℚ} (h : RoundsTo q r) (hq : q ≤ 2 ^ 53) : r < 2 ^ (1024 : Int) := by
  have hle := h.above (2 ^ (53 : Int)) ⟨1, 53, by norm_num, by norm_num, by simp⟩ (by exact_mod_cast hq)
  exact hle.trans_lt (two_zpow_lt_iff.mpr (by norm_num))

/-! Cutting digits off. -/

structure Cut (em : ExtendedMantissa) (x : ℚ) : Prop where
  low : (em.mantissa : ℚ) ≤ x
  high : x < em.mantissa + 1
  half : em.roundBit ↔ em.mantissa + 1 / 2 ≤ x
  whole : (em.roundBit || em.stickyBit) = false ↔ x = em.mantissa

theorem mantissa_ofMantissaAndAccuracy (m : Nat) (a : Accuracy) : (ofMantissaAndAccuracy m a).mantissa = m := by
  cases a with
  | exact => rfl
  | inexact o => cases o <;> rfl

theorem cut_exact (m : Nat) : Cut (.ofMantissaAndAccuracy m .exact) m :=
  ⟨le_rfl, lt_add_one _, by norm_num [ofMantissaAndAccuracy], by simp [ofMantissaAndAccuracy]⟩

variable {m : Nat} {x : ℚ} {a : Accuracy}

variable {em : ExtendedMantissa}

theorem Cut.shiftRightOne (h : Cut em x) : Cut em.shiftRightOne (x / 2) := by
  obtain ⟨m, roundBit, stickyBit⟩ := em
  obtain ⟨hlow, hhigh, -, hwhole⟩ := h
  have hsplit : (m : ℚ) = 2 * (m / 2 : Nat) + (m % 2 : Nat) := by exact_mod_cast (div_add_mod m 2).symm
  change Cut ⟨m / 2, m % 2 != 0, roundBit || stickyBit⟩ (x / 2)
  rw [hsplit] at hlow hhigh hwhole
  rcases mod_two_eq_zero_or_one m with hbit | hbit <;> rw [hbit] at hlow hhigh hwhole ⊢
  · refine ⟨?_, ?_, ?_, ?_⟩
    · linarith
    · linarith
    · simp only [bne_self_eq_false, Bool.false_eq_true, false_iff]
      linarith
    · simp only [bne_self_eq_false, Bool.false_or, hwhole]
      constructor <;> intro heq <;> linarith
  · refine ⟨?_, ?_, ?_, ?_⟩
    · linarith
    · linarith
    · simp only [show ((1 : Nat) != 0) from rfl, true_iff]
      linarith
    · simp only [show ((1 : Nat) != 0) from rfl, Bool.true_or, Bool.true_eq_false, false_iff]
      linarith

theorem Cut.shiftRight (h : Cut em x) (k : Nat) : Cut (em >>> k) (x / 2 ^ k) := by
  induction k with
  | zero => rwa [pow_zero, div_one, show em >>> 0 = em from rfl]
  | succ k ih =>
    rw [pow_succ, ← div_div]
    exact ih.shiftRightOne

theorem Cut.roundedMantissa (h : Cut em x) : (∀ b : Nat, (b : ℚ) ≤ x → b ≤ em.roundedMantissa) ∧
    (∀ b : Nat, x ≤ b → em.roundedMantissa ≤ b) ∧ (em.roundedMantissa : ℚ) ≤ x + 1 / 2 := by
  have hrounded : (em.roundedMantissa = em.mantissa ∨ em.roundedMantissa = em.mantissa + 1 ∧ em.roundBit) ∧
      ((em.roundBit || em.stickyBit) = false → em.roundedMantissa = em.mantissa) := by
    obtain ⟨m, roundBit, stickyBit⟩ := em
    cases roundBit <;> cases stickyBit <;>
      simp [roundedMantissa, accuracy, Accuracy.roundToNearestEven]
    omega
  obtain ⟨hcases, hwhole⟩ := hrounded
  refine ⟨fun b hb => ?_, fun b hb => ?_, ?_⟩
  · have hlt : b < em.mantissa + 1 := by exact_mod_cast hb.trans_lt h.high
    omega
  · rcases eq_or_lt_of_le h.low with heq | hlt
    · rw [hwhole (h.whole.mpr heq.symm)]
      exact_mod_cast heq.le.trans hb
    · have hlt' : em.mantissa < b := by exact_mod_cast hlt.trans_le hb
      omega
  · rcases hcases with heq | ⟨heq, hbit⟩
    · rw [heq]
      linarith [h.low]
    · rw [heq]
      push_cast
      linarith [h.half.mp hbit]

/-! Rounding at an exponent. -/

theorem targetExponent_eq (m : Nat) (e : Int) :
    binary64.targetExponent (totalExponent m e) = max ((m.log2 : Int) + e - 52) (-1074) := by
  simp only [targetExponent, totalExponent, mantissaBits, minExponent]
  omega

inductive Stands (s : Sign) : UnpackedFloat → ℚ → Prop
  | zero (t : Sign) : Stands s (.zero t) 0
  | finite {m : Nat} {e : Int} (hm : 0 < m) (hlt : m < 2 ^ 53) (hleast : -1074 ≤ e)
      (hnormal : e = -1074 ∨ 2 ^ 52 ≤ m) : Stands s (.finite s m e hm) (m * 2 ^ e)

variable {s : Sign} {t : Int}

theorem stands_of_mantissa (hm : m ≤ 2 ^ 53) (hleast : -1074 ≤ t) (hnormal : t = -1074 ∨ 2 ^ 52 ≤ m) :
    Stands s (if h : (shiftToTargetExponent binary64 m t .exact).1.mantissa = 0 then .zero s
      else .finite s (shiftToTargetExponent binary64 m t .exact).1.mantissa
        (shiftToTargetExponent binary64 m t .exact).2 (Nat.pos_of_ne_zero h)) (m * 2 ^ t) := by
  rcases lt_or_eq_of_le hm with hlt | rfl
  · have hlog : m.log2 ≤ 52 := by
      by_cases hzero : m = 0
      · simp [hzero]
      · exact le_of_lt_succ ((log2_lt hzero).mpr hlt)
    have hshift : shiftToTargetExponent binary64 m t .exact = (⟨m, false, false⟩, t) := by
      have htarget : (binary64.targetExponent (totalExponent m t) - t).toNat = 0 := by
        rw [targetExponent_eq]
        omega
      simp only [shiftToTargetExponent, shiftToExponent, htarget, cast_zero, add_zero]
      rfl
    rw [hshift]
    dsimp only
    split_ifs with hzero
    · rw [hzero, cast_zero, zero_mul]
      exact .zero _
    · exact .finite _ hlt hleast hnormal
  · have hshift : shiftToTargetExponent binary64 (2 ^ 53) t .exact = (⟨2 ^ 52, false, false⟩, t + 1) := by
      have htarget : (binary64.targetExponent (totalExponent (2 ^ 53) t) - t).toNat = 1 := by
        rw [targetExponent_eq, log2_two_pow]
        omega
      simp only [shiftToTargetExponent, shiftToExponent, htarget]
      rfl
    rw [hshift]
    have hvalue : ((2 ^ 53 : Nat) : ℚ) * 2 ^ t = (2 ^ 52 : Nat) * 2 ^ (t + 1) := by
      rw [zpow_add_one₀ (by norm_num)]
      ring
    rw [hvalue]
    exact .finite _ (by norm_num) (by omega) (.inr le_rfl)

theorem zpow_sub_mul {i : Int} (h : t ≤ i) : (2 : ℚ) ^ i = (2 ^ (i - t).toNat : Nat) * 2 ^ t := by
  push_cast
  rw [← zpow_natCast, ← zpow_add₀ (by norm_num)]
  congr 1
  omega

/-- A number `y` in units of `2 ^ t`, with 53 digits unless `t` is the least exponent, rounds to the
mantissa of a cut. -/
theorem Cut.roundsTo {y : ℚ} (h : Cut em y) (hnormal : t = -1074 ∨ 2 ^ 52 ≤ y) :
    RoundsTo (y * 2 ^ t) (em.roundedMantissa * 2 ^ t) := by
  have hunit : (0 : ℚ) < 2 ^ t := by positivity
  have hbelow (b : Nat) (hb : (b : ℚ) * 2 ^ t ≤ y * 2 ^ t) : (b : ℚ) * 2 ^ t ≤ em.roundedMantissa * 2 ^ t := by
    have hle := h.roundedMantissa.1 b (le_of_mul_le_mul_right hb hunit)
    exact mul_le_mul_of_nonneg_right (by exact_mod_cast hle) hunit.le
  have habove (b : Nat) (hb : y * 2 ^ t ≤ (b : ℚ) * 2 ^ t) : em.roundedMantissa * 2 ^ t ≤ (b : ℚ) * 2 ^ t := by
    have hle := h.roundedMantissa.2.1 b (le_of_mul_le_mul_right hb hunit)
    exact mul_le_mul_of_nonneg_right (by exact_mod_cast hle) hunit.le
  -- A bound in smaller units lies at or below the least mantissa of 53 digits.
  have hfine {j : Nat} {i : Int} (hj : j ≤ 2 ^ 53) (hi : -1074 ≤ i) (hit : i < t) :
      (j : ℚ) * 2 ^ i ≤ (2 ^ 52 : Nat) * 2 ^ t ∧ ((2 ^ 52 : Nat) : ℚ) * 2 ^ t ≤ y * 2 ^ t := by
    have hpower : (2 : ℚ) ^ i * 2 ≤ 2 ^ t := by
      rw [← zpow_add_one₀ (by norm_num)]
      exact zpow_le_zpow_right₀ (by norm_num) (by omega)
    have hj' : (j : ℚ) ≤ 2 ^ 53 := by exact_mod_cast hj
    constructor
    · calc (j : ℚ) * 2 ^ i ≤ 2 ^ 53 * 2 ^ i := by gcongr
        _ = 2 ^ 52 * (2 ^ i * 2) := by ring
        _ ≤ 2 ^ 52 * 2 ^ t := by gcongr
        _ = (2 ^ 52 : Nat) * 2 ^ t := by push_cast; rfl
    · refine mul_le_mul_of_nonneg_right ?_ hunit.le
      exact_mod_cast hnormal.resolve_left (by omega)
  refine ⟨?_, ?_, t, hnormal.imp_right fun hleast => ?_, ?_⟩
  · rintro b ⟨j, i, hj, hi, rfl⟩ hb
    rcases lt_or_ge i t with hit | hit
    · obtain ⟨hlow, hhigh⟩ := hfine hj hi hit
      exact hlow.trans (hbelow _ hhigh)
    · rw [zpow_sub_mul hit, ← mul_assoc, ← cast_mul] at hb ⊢
      exact hbelow _ hb
  · rintro b ⟨j, i, hj, hi, rfl⟩ hb
    rcases lt_or_ge i t with hit | hit
    · obtain ⟨hlow, hhigh⟩ := hfine hj hi hit
      exact (habove _ (hb.trans hlow)).trans (hhigh.trans hb)
    · rw [zpow_sub_mul hit, ← mul_assoc, ← cast_mul] at hb ⊢
      exact habove _ hb
  · rw [add_comm, zpow_add₀ (by norm_num)]
    exact mul_le_mul_of_nonneg_right hleast hunit.le
  · linarith [mul_le_mul_of_nonneg_right h.roundedMantissa.2.2 hunit.le]

variable {e : Int} {u : UnpackedFloat}

theorem stands_roundWithAccuracy (s : Sign) (hm : m = 0 → e ≤ -1074)
    (hcut : Cut (.ofMantissaAndAccuracy m a) x) (he : e ≤ max ((m.log2 : Int) + e - 52) (-1074)) :
    ∃ r, Stands s (roundWithAccuracy binary64 s m e a) r ∧ RoundsTo (x * 2 ^ e) r := by
  have hlow := hcut.low
  have hhigh := hcut.high
  rw [mantissa_ofMantissaAndAccuracy] at hlow hhigh
  obtain ⟨t, ht⟩ : ∃ t, t = max ((m.log2 : Int) + e - 52) (-1074) := ⟨_, rfl⟩
  rw [← ht] at he
  have hfirst : shiftToTargetExponent binary64 m e a =
      (ofMantissaAndAccuracy m a >>> (t - e).toNat, t) := by
    simp only [shiftToTargetExponent, shiftToExponent, targetExponent_eq, ← ht, Prod.mk.injEq, true_and]
    omega
  have hshifted := hcut.shiftRight (t - e).toNat
  have hvalue : x * 2 ^ e = x / 2 ^ (t - e).toNat * 2 ^ t := by
    rw [zpow_sub_mul he]
    push_cast
    field_simp
  rw [hvalue]
  generalize hy : x / 2 ^ (t - e).toNat = y at *
  have hunit : (0 : ℚ) < 2 ^ e := by positivity
  have hunit' : (0 : ℚ) < 2 ^ t := by positivity
  -- The leading digit of the mantissa says between which powers of two the number lies.
  have hnormal : t = -1074 ∨ (2 : ℚ) ^ 52 ≤ y := by
    rw [or_iff_not_imp_left]
    intro hmin
    have hleast : (2 : ℚ) ^ m.log2 ≤ m := by exact_mod_cast log2_self_le (fun hzero => by simp [hzero] at *; omega)
    refine le_of_mul_le_mul_right ?_ hunit'
    rw [← hvalue, ← zpow_natCast, ← zpow_add₀ (by norm_num), show ((52 : Nat) : Int) + t = m.log2 + e by omega,
      zpow_add₀ (by norm_num)]
    exact mul_le_mul_of_nonneg_right (hleast.trans hlow) hunit.le
  have hbelow : y ≤ (2 ^ 53 : Nat) := by
    have hmost : (m : ℚ) + 1 ≤ 2 ^ (m.log2 + 1) := by exact_mod_cast lt_log2_self
    refine le_of_mul_le_mul_right ?_ hunit'
    rw [← hvalue]
    calc x * 2 ^ e ≤ 2 ^ (m.log2 + 1) * 2 ^ e := mul_le_mul_of_nonneg_right (hhigh.le.trans hmost) hunit.le
      _ = 2 ^ ((m.log2 + 1 : Nat) + e) := by rw [zpow_add₀ (by norm_num), zpow_natCast]
      _ ≤ 2 ^ (53 + t) := zpow_le_zpow_right₀ (by norm_num) (by push_cast; omega)
      _ = (2 ^ 53 : Nat) * 2 ^ t := by rw [zpow_add₀ (by norm_num)]; norm_num
  refine ⟨_, ?_, hshifted.roundsTo hnormal⟩
  simp only [roundWithAccuracy, hfirst]
  refine stands_of_mantissa (hshifted.roundedMantissa.2.1 _ hbelow) (by omega) ?_
  exact hnormal.imp_right fun h => hshifted.roundedMantissa.1 _ (by exact_mod_cast h)

theorem log2_shiftLeft (hm : 0 < m) (k : Nat) : (m <<< k).log2 = m.log2 + k := by
  rw [shiftLeft_eq, log2_eq_iff (by positivity), pow_add, add_right_comm, pow_add]
  exact ⟨mul_le_mul_right _ (log2_self_le hm.ne'), mul_lt_mul_of_pos_right lt_log2_self (by positivity)⟩

theorem stands_round (hm : 0 < m) (e : Int) :
    ∃ r, Stands .positive (UnpackedFloat.round binary64 .positive m e) r ∧ RoundsTo (m * 2 ^ e) r := by
  obtain ⟨k, hk⟩ : ∃ k, k = (e - max ((m.log2 : Int) + e - 52) (-1074)).toNat := ⟨_, rfl⟩
  have hround : UnpackedFloat.round binary64 .positive m e =
      roundWithAccuracy binary64 .positive (m <<< k) (e - k) .exact := by
    simp only [UnpackedFloat.round, decreaseExponent, targetExponent_eq, ← hk]
  have hpos : 0 < m <<< k := by
    rw [shiftLeft_eq]
    positivity
  have hvalue : (m : ℚ) * 2 ^ e = (m <<< k : Nat) * 2 ^ (e - k) := by
    rw [shiftLeft_eq]
    push_cast
    rw [mul_assoc, ← zpow_natCast, ← zpow_add₀ (by norm_num), add_sub_cancel]
  rw [hvalue, hround]
  refine stands_roundWithAccuracy .positive (by omega) (cut_exact _) ?_
  rw [log2_shiftLeft hm]
  omega

/-! Numbers and what they stand for. -/

theorem unpack_packComponents {field m : Nat} (hfield : field < 2047) (hm : m < 2 ^ 52) :
    UnpackedFloat.unpack binary64
        (packComponents binary64 s (BitVec.ofNat 11 field) (BitVec.ofNat 52 m)) =
      if field = 0 then (if h : m = 0 then .zero s else .finite s m (-1074) (Nat.pos_of_ne_zero h))
      else .finite s (2 ^ 52 + m) ((field : Int) - 1075) (by positivity) := by
  have hfield' : (BitVec.ofNat 11 field).toNat = field := by rw [BitVec.toNat_ofNat, mod_eq_of_lt (by omega)]
  have hm' : (BitVec.ofNat 52 m).toNat = m := by rw [BitVec.toNat_ofNat, mod_eq_of_lt hm]
  have htop : BitVec.ofNat 11 field ≠ -1#11 := by
    intro heq
    have := congrArg BitVec.toNat heq
    simp at this
    omega
  simp only [UnpackedFloat.unpack, unpackExponent_packComponents, unpackMantissa_packComponents,
    unpackSign_packComponents, Sign.ofBitVec_toBitVec]
  rw [if_neg htop]
  by_cases hzero : field = 0
  · rw [if_pos (by rw [hzero]), if_pos hzero]
    by_cases hm0 : m = 0
    · rw [dif_pos (by rw [hm0]), dif_pos hm0]
    · have hne : BitVec.ofNat 52 m ≠ 0#52 := fun heq => hm0 (by rw [← hm', heq]; rfl)
      rw [dif_neg hne, dif_neg hm0]
      simp only [hm', hzero]
      rfl
  · have hne : BitVec.ofNat 11 field ≠ 0#11 := fun heq => hzero (by rw [← hfield', heq]; rfl)
    rw [if_neg hne, if_neg hzero]
    simp only [finite.injEq, true_and, hfield']
    refine ⟨?_, rfl⟩
    rw [BitVec.toNat_append, hm', ← shiftLeft_add_eq_or_of_lt hm]
    rfl

theorem unpack_pack (h : Stands s u r) (hr : r < 2 ^ (1024 : Int)) : (Float.Model.pack u).unpack = u := by
  cases h with
  | zero t => exact unpack_packedZero
  | @finite m e hm hlt hleast hnormal =>
    have hgreatest : e ≤ 971 := by
      rcases hnormal with rfl | hnormal
      · norm_num
      · have hpower : (2 : ℚ) ^ (52 + e) < 2 ^ (1024 : Int) := by
          rw [zpow_add₀ (by norm_num)]
          exact (mul_le_mul_of_nonneg_right (by exact_mod_cast hnormal) (by positivity)).trans_lt hr
        have := two_zpow_lt_iff.mp hpower
        omega
    change UnpackedFloat.unpack binary64 (UnpackedFloat.pack binary64 (.finite s m e hm)) = _
    have hbias : ¬ 2 ^ 11 ≤ (e + ((1023 : Nat) : Int) + ((52 : Nat) : Int)).toNat + 1 := by omega
    by_cases hbig : 2 ^ 52 ≤ m
    · have hlog : m.log2 + 1 = 1 + 52 := by rw [(log2_eq_iff hm.ne').mpr ⟨hbig, hlt⟩]
      have hpack : UnpackedFloat.pack binary64 (.finite s m e hm) =
          packComponents binary64 s (BitVec.ofNat 11 (e + 1075).toNat)
            (BitVec.ofNat 52 (m - 2 ^ 52)) := by
        have hlow : BitVec.ofNat 52 m = BitVec.ofNat 52 (m - 2 ^ 52) := by
          apply BitVec.eq_of_toNat_eq
          rw [BitVec.toNat_ofNat, BitVec.toNat_ofNat]
          omega
        rw [← hlow]
        exact (if_neg hbias).trans ((if_pos hlog).trans (by rw [add_assoc]; rfl))
      rw [hpack, unpack_packComponents (by omega) (by omega), if_neg (by omega)]
      simp only [finite.injEq, true_and]
      omega
    · have hlog : ¬ m.log2 + 1 = 1 + 52 := by
        have := (Nat.log2_lt hm.ne').mpr (Nat.lt_of_not_le hbig)
        omega
      have hpack : UnpackedFloat.pack binary64 (.finite s m e hm) =
          packComponents binary64 s (BitVec.ofNat 11 0) (BitVec.ofNat 52 m) := by
        exact (if_neg hbias).trans (if_neg hlog)
      rw [hpack, unpack_packComponents (by omega) (by omega), if_pos rfl, dif_neg hm.ne']
      simp only [finite.injEq, true_and]
      omega

theorem isInf_pack (h : Stands s u r) (hr : 2 ^ (1024 : Int) ≤ r) : (⟨Float.Model.pack u⟩ : Float).isInf := by
  cases h with
  | zero t => exact absurd hr (not_le.mpr (by positivity))
  | @finite m e hm hlt hleast hnormal =>
    have hpower : (2 : ℚ) ^ (1024 : Int) < 2 ^ (53 + e) := by
      rw [zpow_add₀ (by norm_num)]
      exact hr.trans_lt (mul_lt_mul_of_pos_right (by exact_mod_cast hlt) (by positivity))
    have := two_zpow_lt_iff.mp hpower
    have hbias : 2 ^ 11 ≤ (e + ((1023 : Nat) : Int) + ((52 : Nat) : Int)).toNat + 1 := by omega
    have hpack : UnpackedFloat.pack binary64 (.finite s m e hm) = packedInfinity binary64 s := if_pos hbias
    change (UnpackedFloat.unpack binary64 (UnpackedFloat.pack binary64 (.finite s m e hm))).isInf
    rw [hpack]
    cases s <;> decide

theorem cast_shiftLeft_mul (h : t ≤ e) : ((m <<< (e - t).toNat : Nat) : ℚ) * 2 ^ t = m * 2 ^ e := by
  rw [shiftLeft_eq, cast_mul, mul_assoc, ← zpow_sub_mul h]

theorem normalize_natCast (hm : 0 < m) (e : Int) :
    UnpackedFloat.normalize binary64 m e .positive = UnpackedFloat.round binary64 .positive m e := by
  have hcompare : compare (m : Int) 0 = .gt := Int.compare_eq_gt.mpr (by exact_mod_cast hm)
  simp only [UnpackedFloat.normalize, hcompare, Int.toNat_natCast]

variable {v : UnpackedFloat} {a b : ℚ}

theorem Stands.add (hx : Stands .positive u a) (hy : Stands .positive v b) :
    ∃ r, Stands .positive (UnpackedFloat.add binary64 u v) r ∧ RoundsTo (a + b) r := by
  cases hx with
  | zero s =>
    rw [zero_add]
    cases hy with
    | zero t =>
      refine ⟨0, ?_, .refl 0⟩
      change Stands _ (if s == t then .zero s else .zero .positive) 0
      split_ifs <;> exact .zero _
    | finite hm hlt hleast hnormal => exact ⟨_, .finite hm hlt hleast hnormal, .refl _⟩
  | @finite m e hm hlt hleast hnormal =>
    cases hy with
    | zero t => exact ⟨_, .finite hm hlt hleast hnormal, by rw [add_zero]; exact .refl _⟩
    | @finite n f hn =>
      have hvalue : (m : ℚ) * 2 ^ e + n * 2 ^ f =
          ((m <<< (e - min e f).toNat + n <<< (f - min e f).toNat : Nat) : ℚ) * 2 ^ min e f := by
        rw [cast_add, add_mul, cast_shiftLeft_mul (min_le_left e f), cast_shiftLeft_mul (min_le_right e f)]
      have hpos : 0 < m <<< (e - min e f).toNat + n <<< (f - min e f).toNat := by
        rw [shiftLeft_eq]
        positivity
      rw [hvalue]
      obtain ⟨r, hr, hround⟩ := stands_round hpos (min e f)
      rw [← normalize_natCast hpos] at hr
      exact ⟨r, hr, hround⟩

theorem Stands.sub (hx : Stands .positive u a) (hy : Stands .positive v b) (hb : 0 < b) (hle : b ≤ a) :
    ∃ r, Stands .positive (UnpackedFloat.sub binary64 u v) r ∧ RoundsTo (a - b) r := by
  cases hy with
  | zero t => exact absurd hb (lt_irrefl 0)
  | @finite n f hn =>
    cases hx with
    | zero s => exact absurd (hb.trans_le hle) (lt_irrefl 0)
    | @finite m e hm =>
      obtain ⟨p, hp⟩ : ∃ p, p = m <<< (e - min e f).toNat := ⟨_, rfl⟩
      obtain ⟨q, hq⟩ : ∃ q, q = n <<< (f - min e f).toNat := ⟨_, rfl⟩
      have hm' : (m : ℚ) * 2 ^ e = p * 2 ^ min e f := by rw [hp, cast_shiftLeft_mul (min_le_left e f)]
      have hn' : (n : ℚ) * 2 ^ f = q * 2 ^ min e f := by rw [hq, cast_shiftLeft_mul (min_le_right e f)]
      have hunit : (0 : ℚ) < 2 ^ min e f := by positivity
      have hsub : UnpackedFloat.sub binary64 (.finite .positive m e hm) (.finite .positive n f hn) =
          UnpackedFloat.normalize binary64 ((p : Int) - q) (min e f) .positive := by
        rw [hp, hq]
        rfl
      rw [hsub]
      rw [hm', hn'] at hle ⊢
      have hqp : q ≤ p := by exact_mod_cast le_of_mul_le_mul_right hle hunit
      rw [← cast_sub hqp, ← sub_mul, ← cast_sub hqp]
      rcases Nat.eq_zero_or_pos (p - q) with hzero | hpos
      · rw [hzero, cast_zero, cast_zero, zero_mul]
        exact ⟨0, .zero _, .refl 0⟩
      · obtain ⟨r, hr, hround⟩ := stands_round hpos (min e f)
        rw [← normalize_natCast hpos] at hr
        exact ⟨r, hr, hround⟩

theorem cut_accuracyOfFraction (p : Nat) (hn : 0 < n) :
    Cut (.ofMantissaAndAccuracy (p / n) (accuracyOfFraction (p % n) n)) (p / n) := by
  have hn' : (0 : ℚ) < n := by exact_mod_cast hn
  have hsplit : (p : ℚ) = n * (p / n : Nat) + (p % n : Nat) := by exact_mod_cast (div_add_mod p n).symm
  have hrem : ((p % n : Nat) : ℚ) < n := by exact_mod_cast mod_lt p hn
  have hlow : ((p / n : Nat) : ℚ) ≤ p / n := by
    rw [le_div_iff₀ hn']
    linarith
  have hhigh : (p : ℚ) / n < (p / n : Nat) + 1 := by
    rw [div_lt_iff₀ hn']
    linarith
  have hhalf : ((p / n : Nat) : ℚ) + 1 / 2 ≤ p / n ↔ n ≤ 2 * (p % n) := by
    rw [le_div_iff₀ hn', ← cast_le (α := ℚ)]
    push_cast
    constructor <;> intro h <;> linarith
  have hwhole : (p : ℚ) / n = (p / n : Nat) ↔ p % n = 0 := by
    rw [div_eq_iff hn'.ne', ← cast_eq_zero (R := ℚ)]
    constructor <;> intro h <;> linarith
  unfold accuracyOfFraction
  split_ifs with hzero
  · exact ⟨hlow, hhigh, iff_of_false Bool.false_ne_true (mt hhalf.mp (by omega)), iff_of_true rfl (hwhole.mpr hzero)⟩
  · have hpart := iff_of_false Bool.false_ne_true.symm (mt hwhole.mp hzero)
    cases hcompare : compare (2 * (p % n)) n with
    | lt =>
      have hless := Nat.compare_eq_lt.mp hcompare
      exact ⟨hlow, hhigh, iff_of_false Bool.false_ne_true (mt hhalf.mp (not_le_of_gt hless)), hpart⟩
    | eq => exact ⟨hlow, hhigh, iff_of_true rfl (hhalf.mpr (Nat.compare_eq_eq.mp hcompare).ge), hpart⟩
    | gt => exact ⟨hlow, hhigh, iff_of_true rfl (hhalf.mpr (Nat.compare_eq_gt.mp hcompare).le), hpart⟩

theorem stands_div (s : Sign) (hm : 0 < m) (hn : 0 < n) (e f : Int) :
    ∃ r, Stands s (UnpackedFloat.div binary64 (.finite s m e hm) (.finite .positive n f hn)) r ∧
      RoundsTo (m * 2 ^ e / (n * 2 ^ f)) r := by
  obtain ⟨t, ht⟩ : ∃ t, t = min (e - f) (max ((m.log2 : Int) + e - (n.log2 + f) - 53) (-1074)) := ⟨_, rfl⟩
  obtain ⟨p, hp⟩ : ∃ p, p = m <<< (e - f - t).toNat := ⟨_, rfl⟩
  have hdiv : UnpackedFloat.div binary64 (.finite s m e hm) (.finite .positive n f hn) =
      roundWithAccuracy binary64 s (p / n) t (accuracyOfFraction (p % n) n) := by
    have htarget : min (e - f) (binary64.targetExponent (totalExponent m e - totalExponent n f)) = t := by
      simp only [targetExponent, totalExponent, mantissaBits, minExponent]
      omega
    simp only [UnpackedFloat.div, divCore, htarget, hp]
    cases s <;> rfl
  have hvalue : (m : ℚ) * 2 ^ e / (n * 2 ^ f) = p / n * 2 ^ t := by
    have hscaled : (p : ℚ) * 2 ^ t = m * 2 ^ (e - f) := by rw [hp, cast_shiftLeft_mul (by omega)]
    rw [div_mul_eq_mul_div, hscaled, zpow_sub₀ (by norm_num)]
    field_simp
  -- Unless it is cut at the least exponent, the quotient has 53 digits.
  have hdigits : -1074 < t → 2 ^ 52 ≤ p / n := by
    intro hlt
    rw [le_div_iff_mul_le hn, hp, shiftLeft_eq]
    calc 2 ^ 52 * n ≤ 2 ^ 52 * 2 ^ (n.log2 + 1) := mul_le_mul_left _ lt_log2_self.le
      _ = 2 ^ (52 + (n.log2 + 1)) := (pow_add _ _ _).symm
      _ ≤ 2 ^ (m.log2 + (e - f - t).toNat) := Nat.pow_le_pow_right (by norm_num) (by omega)
      _ = 2 ^ m.log2 * 2 ^ (e - f - t).toNat := pow_add _ _ _
      _ ≤ m * 2 ^ (e - f - t).toNat := mul_le_mul_right _ (log2_self_le hm.ne')
  rw [hvalue, hdiv]
  refine stands_roundWithAccuracy s (by omega) (cut_accuracyOfFraction p hn) ?_
  by_cases hlt : -1074 < t
  · have := (le_log2 (by omega)).mpr (hdigits hlt)
    omega
  · omega

def HasValue (x : Float) (r : ℚ) : Prop := Stands .positive x.toModel.unpack r

theorem HasValue.pack (h : Stands .positive u r) (hr : r < 2 ^ (1024 : Int)) : HasValue ⟨Float.Model.pack u⟩ r := by
  rw [HasValue, unpack_pack h hr]
  exact h

theorem hasValue_zero : HasValue 0.0 0 := by
  have hzero : (0.0 : Float) = ⟨Float.Model.pack (.zero .positive)⟩ := by decide
  exact .pack (.zero _) (by positivity)

variable {x y : Float}

theorem HasValue.unique (ha : HasValue x a) (hb : HasValue x b) : a = b := by
  unfold HasValue at ha hb
  generalize x.toModel.unpack = u at ha hb
  cases ha <;> cases hb <;> rfl

variable (hx : HasValue x a) (hy : HasValue y b)

include hx hy

theorem HasValue.add (hbound : a + b ≤ 2 ^ 53) : ∃ r, HasValue (x + y) r ∧ RoundsTo (a + b) r :=
  (Stands.add hx hy).imp fun _ h => ⟨.pack h.1 (h.2.small hbound), h.2⟩

theorem HasValue.sub (hb : 0 < b) (hle : b ≤ a) (hbound : a ≤ 2 ^ 53) :
    ∃ r, HasValue (x - y) r ∧ RoundsTo (a - b) r :=
  (Stands.sub hx hy hb hle).imp fun _ h => ⟨.pack h.1 (h.2.small (by linarith)), h.2⟩

theorem HasValue.div (hb : 0 < b) (hbound : a / b ≤ 2 ^ 53) : ∃ r, HasValue (x / y) r ∧ RoundsTo (a / b) r := by
  obtain ⟨r, hr, hround⟩ : ∃ r, Stands .positive (UnpackedFloat.div binary64 x.toModel.unpack y.toModel.unpack) r ∧
      RoundsTo (a / b) r := by
    unfold HasValue at hx hy
    generalize x.toModel.unpack = u at *
    generalize y.toModel.unpack = v at *
    cases hy with
    | zero t => exact absurd hb (lt_irrefl 0)
    | finite hn =>
      cases hx with
      | zero s => exact ⟨0, .zero _, by rw [zero_div]; exact .refl 0⟩
      | finite hm => exact stands_div .positive hm hn _ _
  exact ⟨r, .pack hr (hround.small hbound), hround⟩

omit hx hy

/-! Whole numbers and tenths. -/

theorem hasValue_ofUInt64 (hpos : 0 < n) (h : n < 2 ^ 53) : HasValue n.toUInt64.toFloat n := by
  have hcast : n.toUInt64.toNat = n := by rw [UInt64.toNat_ofNat', mod_eq_of_lt (by omega)]
  have hfloat : n.toUInt64.toFloat =
      ⟨Float.Model.pack (UnpackedFloat.normalize binary64 (n.toUInt64.toNat : Int) 0 .positive)⟩ := rfl
  rw [hfloat, hcast, normalize_natCast hpos]
  obtain ⟨r, hr, hround⟩ := stands_round hpos 0
  rw [zpow_zero, mul_one] at hround
  have hsmall := hround.small (by exact_mod_cast h.le)
  rw [hround.eq (onGrid_natCast h.le)] at hr hsmall
  exact .pack hr hsmall

theorem stands_ten : Stands .positive (.finite .positive (5 * 2 ^ 50) (-49) (by norm_num)) 10 := by
  have hvalue : (10 : ℚ) = (5 * 2 ^ 50 : Nat) * 2 ^ (-49 : Int) := by norm_num
  rw [hvalue]
  exact .finite _ (by norm_num) (by norm_num) (.inr (by norm_num))

theorem stands_one : Stands .positive (.finite .positive (2 ^ 52) (-52) (by norm_num)) 1 := by
  have hvalue : (1 : ℚ) = (2 ^ 52 : Nat) * 2 ^ (-52 : Int) := by norm_num
  rw [hvalue]
  exact .finite _ (by norm_num) (by norm_num) (.inr (by norm_num))

theorem hasValue_tenths (hpos : 0 < n) (h : n < 2 ^ 53) :
    ∃ r, HasValue (OfScientific.ofScientific n true 1) r ∧ RoundsTo (n / 10) r := by
  have hten : Float.exactlyRepresentablePowersOfTen[1] =
      ⟨Float.Model.pack (.finite .positive (5 * 2 ^ 50) (-49) (by norm_num))⟩ := by decide
  have htenths : (OfScientific.ofScientific n true 1 : Float) =
      n.toUInt64.toFloat / Float.exactlyRepresentablePowersOfTen[1] := by
    change Float.ofScientific n true 1 = _
    rw [Float.ofScientific, dif_pos ⟨h, by norm_num⟩]
    rfl
  have hn : (n : ℚ) ≤ 2 ^ 53 := by exact_mod_cast h.le
  rw [htenths]
  exact (hasValue_ofUInt64 hpos h).div (.pack stands_ten ((RoundsTo.refl 10).small (by norm_num))) (by norm_num)
    (by linarith)

theorem hasValue_ofNat (hpos : 0 < n) (h : n < 2 ^ 53) : HasValue (Float.ofNat n) n := by
  have hone : Float.exactlyRepresentablePowersOfTen[0] =
      ⟨Float.Model.pack (.finite .positive (2 ^ 52) (-52) (by norm_num))⟩ := by decide
  have hfloat : Float.ofNat n = n.toUInt64.toFloat * Float.exactlyRepresentablePowersOfTen[0] := by
    change Float.ofScientific n false 0 = _
    rw [Float.ofScientific, dif_pos ⟨h, by norm_num⟩]
    rfl
  have hproduct : Float.ofNat n = ⟨Float.Model.pack (mul binary64 n.toUInt64.toFloat.toModel.unpack
      (.finite .positive (2 ^ 52) (-52) (by norm_num)))⟩ := by
    rw [hfloat]
    rfl
  have hn := hasValue_ofUInt64 hpos h
  have hbound : (n : ℚ) ≤ 2 ^ 53 := by exact_mod_cast h.le
  have hgrid := onGrid_natCast h.le
  have hne : (n : ℚ) ≠ 0 := by exact_mod_cast hpos.ne'
  rw [hproduct]
  unfold HasValue at hn
  generalize n.toUInt64.toFloat.toModel.unpack = u at hn
  generalize (n : ℚ) = q at *
  cases hn with
  | zero s => exact absurd rfl hne
  | @finite m e hm =>
    obtain ⟨p, hp⟩ : ∃ p, p = m <<< 52 := ⟨_, rfl⟩
    have hlog : p.log2 = m.log2 + 52 := by rw [hp, log2_shiftLeft hm]
    have hvalue : (m : ℚ) * 2 ^ e = p * 2 ^ (e + -52) := by
      rw [hp, shiftLeft_eq, zpow_add₀ (by norm_num)]
      norm_num
      ring
    have hmul : mul binary64 (.finite .positive m e hm)
          (.finite .positive (2 ^ 52) (-52) (by norm_num)) =
        roundWithAccuracy binary64 .positive p (e + -52) .exact := by
      rw [hp, shiftLeft_eq]
      rfl
    obtain ⟨r, hr, hround⟩ := stands_roundWithAccuracy .positive (by omega) (cut_exact p) (by omega)
    rw [← hvalue] at hround
    rw [hmul]
    exact hround.eq hgrid ▸ .pack hr (hround.small hbound)

/-! Decimal places. -/

theorem HasValue.ofFloat? (h : HasValue x r) : ∃ d, Dyadic.ofFloat? x = some d ∧ d.size = r := by
  unfold Dyadic.ofFloat?
  unfold HasValue at h
  generalize x.toModel.unpack = u at *
  cases h with
  | zero s => exact ⟨_, rfl, by simp [Dyadic.size]⟩
  | finite hm => exact ⟨_, rfl, rfl⟩

theorem roundDiv_le {d b : Nat} (hd : 0 < d) (h : n ≤ b * d) : roundDiv n d ≤ b := by
  refine (rounds_roundDiv n hd).le (rounds_natCast b) ?_
  rw [div_le_iff₀ (by exact_mod_cast hd)]
  exact_mod_cast h

theorem Dyadic.ratio_size (d : Dyadic) : 0 < d.ratio.2 ∧ (d.ratio.1 : ℚ) / d.ratio.2 = d.size := by
  unfold Dyadic.ratio Dyadic.size
  by_cases hneg : d.exponent < 0
  · rw [if_pos hneg, zpow_of_neg 2 hneg]
    exact ⟨by simp, by simp [div_eq_mul_inv]⟩
  · rw [if_neg hneg, zpow_of_nonneg 2 (by omega)]
    exact ⟨by simp, by simp⟩

theorem nearestFloat_hundredths : ∀ negative : Bool, ∀ n : Fin 51, nearestFloat negative n 100 ≠ 1.0 := by
  decide

theorem floatRound_ne_one (hx : HasValue x r) (hr : r ≤ 1 / 2) : floatRound 2 x ≠ 1.0 := by
  obtain ⟨d, hd, rfl⟩ := hx.ofFloat?
  obtain ⟨hden, hsize⟩ := d.ratio_size
  have hden' : (0 : ℚ) < d.ratio.2 := by exact_mod_cast hden
  rw [← hsize, div_le_iff₀ hden'] at hr
  have hhalf : 2 * d.ratio.1 ≤ d.ratio.2 := by
    have : (2 * d.ratio.1 : ℚ) ≤ d.ratio.2 := by linarith
    exact_mod_cast this
  have hunits : Decimal.places 2 d.ratio.1 d.ratio.2 ≤ 50 := by
    refine roundDiv_le hden ?_
    change d.ratio.1 * 100 ≤ 50 * d.ratio.2
    omega
  have hround : floatRound 2 x = nearestFloat d.negative (Decimal.places 2 d.ratio.1 d.ratio.2) 100 := by
    rw [floatRound, hd]
    rfl
  rw [hround]
  exact nearestFloat_hundredths d.negative ⟨_, lt_succ_of_le hunits⟩

/-! Quotients. -/

theorem nearestFloat_congr (negative : Bool) {num den num' den' : Nat} (h : (num : ℚ) / den = num' / den') :
    nearestFloat negative num den = nearestFloat negative num' den' := by
  have hq : mkRat num den = mkRat num' den' := by simpa only [Rat.mkRat_eq_div, Int.cast_natCast] using h
  unfold nearestFloat
  rw [hq]

theorem exists_nearestFloat (negative : Bool) (num den : Nat) :
    ∃ u r, nearestFloat negative num den = ⟨Float.Model.pack u⟩ ∧
    Stands (if negative then .negative else .positive) u r ∧ RoundsTo (num / den) r := by
  have hq : mkRat num den = (num : ℚ) / den := by rw [Rat.mkRat_eq_div, Int.cast_natCast]
  have hnonneg : 0 ≤ mkRat num den := by
    rw [hq]
    positivity
  rw [nearestFloat, ← hq]
  generalize mkRat num den = q at *
  by_cases hpos : 0 < q.num.natAbs
  · obtain ⟨r, hr, hround⟩ := stands_div (if negative then .negative else .positive) hpos q.den_pos 0 0
    rw [zpow_zero, mul_one, mul_one, cast_natAbs, abs_of_nonneg (Rat.num_nonneg.mpr hnonneg),
      Rat.num_div_den] at hround
    rw [dif_pos hpos]
    exact ⟨_, r, rfl, hr, hround⟩
  · have hzero : q = 0 := Rat.num_eq_zero.mp (by omega)
    rw [dif_neg hpos]
    exact ⟨_, 0, rfl, .zero _, hzero ▸ .refl 0⟩

theorem nearestFloat_natCast_beq_zero (hn : 0 < n) (hfinite : (nearestFloat false n 1).isInf = false) :
    (nearestFloat false n 1 == 0) = false := by
  obtain ⟨u, r, heq, hr, hround⟩ := exists_nearestFloat false n 1
  have hone : 1 ≤ r := hround.below 1 ⟨1, 0, by norm_num, by norm_num, by norm_num⟩
    (by rw [cast_one, div_one]; exact one_le_cast.mpr hn)
  rw [heq] at hfinite ⊢
  rcases lt_or_ge r (2 ^ (1024 : Int)) with hsmall | hbig
  · change UnpackedFloat.beq (Float.Model.pack u).unpack (.zero .positive) = false
    rw [unpack_pack hr hsmall]
    cases hr with
    | zero t => exact absurd hone (by norm_num)
    | finite hm => rfl
  · rw [isInf_pack hr hbig] at hfinite
    cases hfinite

theorem exponent_le {m' : Nat} {e' : Int} (hlt : m < 2 ^ 53) (hleast : -1074 ≤ e) (hnormal : e' = -1074 ∨ 2 ^ 52 ≤ m')
    (h : (m : ℚ) * 2 ^ e = m' * 2 ^ e') : e' ≤ e := by
  by_contra hgt
  rw [zpow_sub_mul (Int.not_le.mp hgt).le, ← mul_assoc] at h
  have hm : m = m' * 2 ^ (e' - e).toNat := by exact_mod_cast mul_right_cancel₀ (by positivity) h
  have hpower : 2 ^ 1 ≤ 2 ^ (e' - e).toNat := Nat.pow_le_pow_right (by norm_num) (by omega)
  have := Nat.mul_le_mul (hnormal.resolve_left (by omega)) hpower
  omega

namespace Dyadic

variable {d : Dyadic}

theorem Canonical.ofFloat?_nearestFloat (hc : d.Canonical) (hm : 0 < d.mantissa) {num den : Nat}
    (h : (num : ℚ) / den = d.size) (negative : Bool) :
    ofFloat? (nearestFloat negative num den) = some { d with negative } := by
  obtain ⟨u, r, heq, hr, hround⟩ := exists_nearestFloat negative num den
  rw [h] at hround
  obtain rfl := hround.eq ⟨d.mantissa, d.exponent, hc.mantissa_lt.le, hc.least, rfl⟩
  have hsmall : d.size < 2 ^ (1024 : Int) := by
    have := hc.greatest
    exact (hc.size_bounds hm).2.trans_le (zpow_le_zpow_right₀ (by norm_num) (by omega))
  rw [heq, ofFloat?, unpack_pack hr hsmall]
  generalize hsize : d.size = r at *
  cases hr with
  | zero t => exact absurd hsize (mul_ne_zero (by exact_mod_cast hm.ne') (by positivity))
  | finite hm' hlt hleast hnormal => 
    obtain rfl := Int.le_antisymm (exponent_le hc.mantissa_lt hc.least hnormal hsize)
      (exponent_le hlt hleast hc.normal hsize.symm)
    have hsame := Nat.cast_injective (mul_right_cancel₀ (by positivity) hsize)
    rw [hsame]
    cases negative <;> rfl

end Dyadic

end CodeAudit

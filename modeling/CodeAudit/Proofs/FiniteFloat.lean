import Mathlib
import CodeAudit.Number.Decimal

/-! Rounding to whole numbers, and finite floating numbers as `mantissa * 2 ^ exponent`. -/

namespace CodeAudit

open Nat

@[mk_iff]
structure Rounds (x : ℚ) (m : Nat) : Prop where
  low : (m : ℚ) - 1 / 2 ≤ x
  high : x ≤ m + 1 / 2
  odd : m % 2 = 1 → (m : ℚ) - 1 / 2 < x ∧ x < m + 1 / 2

theorem Rounds.le {x y : ℚ} {m n : Nat} (hx : Rounds x m) (hy : Rounds y n) (h : x ≤ y) : m ≤ n := by
  have hlow := hx.low
  have hhigh := hy.high
  by_contra hlt
  have hle : (n : ℚ) + 1 ≤ m := by exact_mod_cast not_le.mp hlt
  -- Both lie half-way between the same two numbers, one of which is odd.
  rcases mod_two_eq_zero_or_one m with heven | hone
  · have hsame : (m : ℚ) = n + 1 := by linarith
    have hsucc : m = n + 1 := by exact_mod_cast hsame
    have hstrict := (hy.odd (by omega)).2
    linarith
  · have hstrict := (hx.odd hone).1
    linarith

theorem rounds_roundDiv (n : Nat) {d : Nat} (hd : 0 < d) : Rounds (n / d) (roundDiv n d) := by
  have hpos : (0 : ℚ) < d := by exact_mod_cast hd
  have hsplit : (d : ℚ) * (n / d : Nat) + (n % d : Nat) = n := by exact_mod_cast div_add_mod n d
  have hrem : ((n % d : Nat) : ℚ) < d := by exact_mod_cast mod_lt n hd
  have hnonneg : (0 : ℚ) ≤ (n % d : Nat) := by positivity
  rw [rounds_iff, le_div_iff₀ hpos, div_le_iff₀ hpos, lt_div_iff₀ hpos, div_lt_iff₀ hpos]
  unfold roundDiv
  dsimp only
  split_ifs with hless hmore heven
  · have hcast : 2 * ((n % d : Nat) : ℚ) < d := by exact_mod_cast hless
    exact ⟨by linarith, by linarith, fun _ => ⟨by linarith, by linarith⟩⟩
  · have hcast : (d : ℚ) < 2 * (n % d : Nat) := by exact_mod_cast hmore
    push_cast
    exact ⟨by linarith, by linarith, fun _ => ⟨by linarith, by linarith⟩⟩
  · have hcast : 2 * ((n % d : Nat) : ℚ) = d := by exact_mod_cast (by omega : 2 * (n % d) = d)
    exact ⟨by linarith, by linarith, fun hodd => by omega⟩
  · have hcast : 2 * ((n % d : Nat) : ℚ) = d := by exact_mod_cast (by omega : 2 * (n % d) = d)
    push_cast
    exact ⟨by linarith, by linarith, fun hodd => by omega⟩

theorem rounds_natCast (b : Nat) : Rounds b b := ⟨by linarith, by linarith, fun _ => ⟨by linarith, by linarith⟩⟩

variable {k : Int}

theorem zpow_of_neg (b : ℚ) (h : k < 0) : b ^ k = (b ^ k.natAbs)⁻¹ := by
  rw [← zpow_natCast, ← zpow_neg]
  congr 1
  omega

theorem zpow_of_nonneg (b : ℚ) (h : 0 ≤ k) : b ^ k = b ^ k.natAbs := by
  rw [← zpow_natCast]
  congr 1
  omega

def Decimal.value (d : Decimal) : ℚ := d.digits * 10 ^ d.scale

namespace Dyadic

structure Canonical (d : Dyadic) : Prop where
  mantissa_lt : d.mantissa < 2 ^ 53
  least : -1074 ≤ d.exponent
  greatest : d.exponent ≤ 971
  normal : d.exponent = -1074 ∨ 2 ^ 52 ≤ d.mantissa

variable (d : Dyadic)

def size : ℚ := d.mantissa * 2 ^ d.exponent

theorem value_exact : (Decimal.exact d).value = d.size := by
  unfold Decimal.exact Decimal.value size
  dsimp only
  split_ifs with he
  · rw [zpow_of_neg 10 he, zpow_of_neg 2 he, show (10 : ℚ) = 5 * 2 by norm_num, mul_pow]
    push_cast [pow_eq]
    field_simp
  · rw [zpow_of_nonneg 2 (by omega)]
    push_cast [pow_eq]
    rw [mul_one]

variable {d : Dyadic}

theorem Canonical.size_bounds (hc : d.Canonical) (hm : 0 < d.mantissa) :
    (2 : ℚ) ^ d.exponent ≤ d.size ∧ d.size < 2 ^ (d.exponent + 53) := by
  have hunit : (0 : ℚ) < 2 ^ d.exponent := by positivity
  have hone : (1 : ℚ) ≤ d.mantissa := by exact_mod_cast hm
  have hlt : (d.mantissa : ℚ) < 2 ^ (53 : Int) := by exact_mod_cast hc.mantissa_lt
  rw [add_comm, zpow_add₀ (by norm_num), size]
  exact ⟨le_mul_of_one_le_left hunit.le hone, mul_lt_mul_of_pos_right hlt hunit⟩

open Float.Model UnpackedFloat Format

variable {x y : Float}

theorem ofFloat?_canonical (h : ofFloat? x = some d) : d.Canonical := by
  have hm := (@unpackMantissa binary64 x.toModel.toBits.toBitVec).isLt
  have he := (@unpackExponent binary64 x.toModel.toBits.toBitVec).isLt
  have hbias : ((binary64.exponentBias : Nat) : Int) = 1023 := rfl
  unfold ofFloat? Float.Model.unpack UnpackedFloat.unpack at h
  dsimp only at h
  split_ifs at h with htop hinf hzero hnone
  · cases h
    exact ⟨by norm_num, le_rfl, by norm_num, .inl rfl⟩
  · cases h
    rw [hzero]
    exact ⟨hm.trans (by decide), le_rfl, show (-1074 : Int) ≤ 971 by decide, .inl rfl⟩
  · cases h
    have hlow := mt BitVec.eq_of_toNat_eq hzero
    have hhigh := mt BitVec.eq_of_toNat_eq htop
    rw [BitVec.toNat_append, ← shiftLeft_add_eq_or_of_lt hm, hbias]
    generalize (unpackExponent _).toNat = field at *
    generalize (unpackMantissa _).toNat = fraction at *
    change fraction < 2 ^ 52 at hm
    change field < 2048 at he
    change field ≠ 0 at hlow
    change field ≠ 2047 at hhigh
    exact ⟨show 2 ^ 52 + fraction < 2 ^ 53 by omega, show -1074 ≤ (field : Int) - 1075 by omega,
      show (field : Int) - 1075 ≤ 971 by omega, .inr (show 2 ^ 52 ≤ 2 ^ 52 + fraction by omega)⟩

theorem unpack_of_ofFloat? (h : ofFloat? x = some d) : x.toModel.unpack =
    if hm : 0 < d.mantissa then .finite (if d.negative then .negative else .positive) d.mantissa d.exponent hm
    else .zero (if d.negative then .negative else .positive) := by
  unfold ofFloat? at h
  generalize x.toModel.unpack = u at *
  cases u with
  | infinity | notANumber => cases h
  | zero s =>
    cases h
    cases s <;> rfl
  | finite s m e hm =>
    cases h
    rw [dif_pos hm]
    cases s <;> rfl

theorem ofFloat?_inj (hx : ofFloat? x = some d) (hy : ofFloat? y = some d) : x = y := by
  rw [← Float.toBits_inj]
  exact congrArg UInt64.ofBitVec ((unpack_inj_of_valid x.toModel.valid y.toModel.valid).mp
    ((unpack_of_ofFloat? hx).trans (unpack_of_ofFloat? hy).symm))

theorem ofFloat?_zero (hx : ofFloat? x = some d) (hm : d.mantissa = 0) : x = if d.negative then -0.0 else 0.0 := by
  have he : d.exponent = -1074 := (ofFloat?_canonical hx).normal.resolve_right (by omega)
  obtain ⟨negative, m, e⟩ := d
  cases hm
  cases he
  exact ofFloat?_inj hx (by cases negative <;> decide)

end Dyadic

/-! The numbers that are not finite. -/

open Float.Model UnpackedFloat Format

variable {x : Float}

theorem isInf_cases (h : x.isInf) : x = 1.0 / 0.0 ∨ x = -1.0 / 0.0 := by
  have hunpack : ∃ s, x.toModel.unpack = .infinity s := by
    change x.toModel.unpack.isInf at h
    cases hu : x.toModel.unpack with
    | infinity s => exact ⟨s, rfl⟩
    | _ => rw [hu] at h; simp [UnpackedFloat.isInf] at h
  obtain ⟨s, hs⟩ := hunpack
  have hpack := pack_unpack_of_valid x.toModel.valid
  rw [show unpack binary64 x.toModel.toBits.toBitVec = .infinity s from hs] at hpack
  have hbits : x.toBits = UInt64.ofBitVec (pack binary64 (.infinity s)) := by
    rw [hpack]
    rfl
  rw [← Float.toBits_inj, ← Float.toBits_inj, hbits]
  cases s <;> decide

theorem isNaN_or_isInf_of_ofFloat?_none (h : Dyadic.ofFloat? x = none) : x.isNaN ∨ x.isInf := by
  unfold Dyadic.ofFloat? at h
  change x.toModel.unpack.isNaN ∨ x.toModel.unpack.isInf
  generalize x.toModel.unpack = u at *
  cases u with
  | notANumber => exact .inl rfl
  | infinity s => exact .inr rfl
  | _ => cases h

variable {d : Dyadic} (h : Dyadic.ofFloat? x = some d)

include h

theorem isFinite_of_ofFloat? : x.isNaN = false ∧ x.isInf = false := by
  unfold Dyadic.ofFloat? at h
  change x.toModel.unpack.isNaN = false ∧ x.toModel.unpack.isInf = false
  generalize x.toModel.unpack = u at *
  cases u with
  | zero | finite => exact ⟨rfl, rfl⟩
  | _ => cases h

theorem not_isNaN_of_ofFloat? : x.isNaN = false := (isFinite_of_ofFloat? h).1

theorem not_isInf_of_ofFloat? : x.isInf = false := (isFinite_of_ofFloat? h).2

end CodeAudit

import CodeAudit.Proofs.FloatBounds
import CodeAudit.Scoring

/-! The trend of a series of numbers. -/

namespace CodeAudit

open List Float.Model UnpackedFloat Format

/-- All that rounds to a finite number is smaller. -/
def limit : ℚ := 2 ^ ((1024 : Nat) : Int) - 2 ^ ((970 : Nat) : Int)

theorem exists_ofFloat?_nearestFloat (negative : Bool) {num den : Nat} (h : (num : ℚ) / den < limit) :
    ∃ d, Dyadic.ofFloat? (nearestFloat negative num den) = some d := by
  obtain ⟨u, r, heq, hr, hround⟩ := exists_nearestFloat negative num den
  have hsmall : r < 2 ^ (1024 : Int) := by
    obtain ⟨t, ht, hclose⟩ := hround.close
    have hlt : (num : ℚ) / den < 2 ^ ((1024 : Nat) : Int) := h.trans (sub_lt_self _ (by positivity))
    have ht' : t ≤ 971 := by
      rcases ht with rfl | ht
      · norm_num
      · have := two_zpow_lt_iff.mp (ht.trans_lt hlt)
        omega
    have hunit : (2 : ℚ) ^ t ≤ 2 ^ ((970 : Nat) + 1 : Int) := zpow_le_zpow_right₀ (by norm_num) ht'
    rw [zpow_add_one₀ (by norm_num)] at hunit
    calc r ≤ num / den + 2 ^ t / 2 := hclose
      _ ≤ num / den + 2 ^ ((970 : Nat) : Int) := add_le_add le_rfl ((div_le_iff₀ two_pos).mpr hunit)
      _ < 2 ^ ((1024 : Nat) : Int) := lt_sub_iff_add_lt.mp h
  rw [heq, Dyadic.ofFloat?, unpack_pack hr hsmall]
  cases hr <;> exact ⟨_, rfl⟩

theorem sub_self_of_ofFloat? {x : Float} {d : Dyadic} (h : Dyadic.ofFloat? x = some d) : x - x = 0.0 := by
  unfold Dyadic.ofFloat? at h
  change (⟨Float.Model.pack (UnpackedFloat.sub binary64 x.toModel.unpack x.toModel.unpack)⟩ : Float) = 0.0
  generalize x.toModel.unpack = u at *
  cases u with
  | notANumber | infinity s => cases h
  | zero s => cases s <;> decide
  | finite s m e hm =>
    have hzero : UnpackedFloat.sub binary64 (.finite s m e hm) (.finite s m e hm) = .zero .positive := by
      simp [UnpackedFloat.sub, UnpackedFloat.normalize]
    rw [hzero]
    decide

theorem float_lt_iff {x y : Float} : x < y ↔ x.toModel.unpack.lt y.toModel.unpack := decide_eq_true_iff

theorem lt_zero_float (y : Float) : Num.lt (.int 0) (.float y) ↔ 0.0 < y := by
  have hzero : (0 : Float).toModel.unpack = .zero .positive ∧
      (0.0 : Float).toModel.unpack = .zero .positive := ⟨rfl, rfl⟩
  have hnan : y.isNaN = y.toModel.unpack.isNaN := rfl
  simp only [Num.lt, Num.compare?, Num.compare?.floatWithInt, Dyadic.ofFloat?, hnan, float_lt_iff, hzero]
  cases y.toModel.unpack with
  | notANumber => decide
  | infinity s => cases s <;> decide
  | zero s => cases s <;> decide +kernel
  | finite s m e hm =>
    have hnum : 0 < (Dyadic.mk (s == .negative) m e).ratio.1 := by
      unfold Dyadic.ratio
      split_ifs
      · exact hm
      · exact Nat.mul_pos hm (Nat.pow_pos (by decide))
    simp only [Dyadic.compareInt, Int.zero_mul]
    generalize (Dyadic.ratio _).1 = num at *
    cases s with
    | positive => simp [hnum, UnpackedFloat.lt, UnpackedFloat.compare, Int.compare_eq_gt]
    | negative => simp [UnpackedFloat.lt, UnpackedFloat.compare, Int.compare_eq_gt]

theorem mapM_eq_some_iff {α β : Type} {f : α → Option β} {as : List α} {bs : List β} :
    as.mapM f = some bs ↔ as.map f = bs.map some := by
  induction as generalizing bs with
  | nil => cases bs <;> simp
  | cons a as ih =>
    cases bs <;> simp only [mapM_cons, Option.bind_eq_bind, Option.bind_eq_some_iff, ih, map_cons, map_nil]
    · simp
    · simp

namespace Scoring

def floatOf (r : ℚ) : Float := nearestFloat (r.num < 0) r.num.natAbs r.den

variable {values : List Value} {a b n : Num} {q r : ℚ} {x y : Float}

theorem exists_ofFloat?_floatOf (h : |r| < limit) : ∃ d, Dyadic.ofFloat? (floatOf r) = some d := by
  refine exists_ofFloat?_nearestFloat _ ?_
  rwa [Nat.cast_natAbs, Int.cast_abs, ← Nat.abs_cast r.den, ← abs_div, Rat.num_div_den]

theorem isInf_floatOf (h : |r| < limit) : (floatOf r).isInf = false :=
  (exists_ofFloat?_floatOf h).elim fun _ => not_isInf_of_ofFloat?

theorem toFloat_of_fits {n : Int} (h : |(n : ℚ)| < limit) : (Num.int n).toFloat = .ok (floatOf n) := by
  have hnearest : floatOf n = nearestFloat (n < 0) n.natAbs 1 := rfl
  have hfinite := isInf_floatOf h
  rw [hnearest] at hfinite ⊢
  simp [Num.toFloat, floatOfInt?, hfinite]

theorem nearest_eq (h : |r| < limit) (whole : Bool) :
    ∃ n, nearest whole r = .ok n ∧ n.toFloat = .ok (floatOf r) ∧ (n = .int r.num ∨ n = .float (floatOf r)) := by
  have hfinite := isInf_floatOf h
  simp only [nearest]
  split_ifs with hwhole hinf
  · have hr : r = r.num := by
      simp only [Bool.and_eq_true, beq_iff_eq] at hwhole
      exact (Rat.den_eq_one_iff r).mp hwhole.2 |>.symm
    refine ⟨_, rfl, ?_, .inl rfl⟩
    rw [toFloat_of_fits (by rwa [← hr]), ← hr]
  · exact absurd hinf (Bool.eq_false_iff.mp hfinite)
  · exact ⟨_, rfl, rfl, .inr rfl⟩

theorem limit_eq : limit = (2 ^ 53 - 1 / 2) * 2 ^ (971 : Int) := by
  have hhigh : (2 : ℚ) ^ ((1024 : Nat) : Int) = 2 ^ 53 * 2 ^ (971 : Int) := zpow_add₀ (by norm_num) 53 971
  have hlow : (2 : ℚ) ^ ((970 : Nat) : Int) * 2 = 2 ^ (971 : Int) := (zpow_add_one₀ (by norm_num) 970).symm
  rw [limit, hhigh, ← hlow]
  ring

theorem add_lt_two_zpow {m i j : Nat} (h : m < Nat.pow 2 j - Nat.pow 2 i) :
    (m : ℚ) + 2 ^ (i : Int) < 2 ^ (j : Int) := by
  have hsum := Nat.lt_sub_iff_add_lt.mp h
  rw [Nat.pow_eq, Nat.pow_eq] at hsum
  exact_mod_cast hsum

theorem abs_exactValue_lt (hfits : n.fitsFloat) (h : exactValue? n = some r) : |r| < limit := by
  cases n with
  | int n =>
    cases h
    rw [Num.fitsFloat, decide_eq_true_eq] at hfits
    have hsum := add_lt_two_zpow hfits
    rw [Nat.cast_natAbs, Int.cast_abs] at hsum
    exact lt_sub_iff_add_lt.mpr hsum
  | float x =>
    obtain ⟨d, hd, rfl⟩ := Option.map_eq_some_iff.mp h
    have hc := Dyadic.ofFloat?_canonical hd
    have hmantissa : (d.mantissa : ℚ) ≤ 2 ^ 53 - 1 := by
      have : (d.mantissa : ℚ) + 1 ≤ 2 ^ 53 := by exact_mod_cast hc.mantissa_lt
      linarith
    have hsize : d.size < limit := by
      have hunit : (0 : ℚ) < 2 ^ (971 : Int) := by positivity
      calc d.size ≤ (2 ^ 53 - 1) * 2 ^ (971 : Int) :=
            mul_le_mul hmantissa (zpow_le_zpow_right₀ (by norm_num) hc.greatest) (by positivity) (by norm_num)
        _ < limit := limit_eq ▸ mul_lt_mul_of_pos_right (by norm_num) hunit
    have habs : |(d.ratio.1 : ℚ) / d.ratio.2| < limit := by
      rwa [abs_of_nonneg (by positivity), d.ratio_size.2]
    dsimp only
    split_ifs
    · rwa [abs_neg]
    · exact habs

theorem abs_sum_lt {rs : List ℚ} (hne : rs ≠ []) (h : ∀ r ∈ rs, |r| < limit) : |rs.sum| < rs.length * limit := by
  induction rs with
  | nil => exact absurd rfl hne
  | cons r rs ih =>
    obtain ⟨hr, hrs⟩ := forall_mem_cons.mp h
    rw [sum_cons, length_cons, Nat.cast_succ, add_mul, one_mul]
    by_cases hempty : rs = []
    · simpa [hempty] using hr
    · linarith [abs_add_le r rs.sum, ih hempty hrs]

variable {nums : List Num} (hne : nums ≠ []) (hnums : values.map (·.number?) = nums.map some)

include hne hnums

theorem mean_eq :
    (∀ rs, nums.mapM exactValue? = some rs → ∃ whole, mean values = nearest whole (rs.sum / rs.length)) ∧
    (nums.mapM exactValue? = none → ∃ x, mean values = .ok (.float x)) := by
  have hread {f : Value → Outcome Num} (hf : ∀ v n, v.number? = some n → f v = .ok n) : values.mapM f = .ok nums := by
    clear hne
    induction values generalizing nums with
    | nil => simp_all
    | cons v values ih =>
      cases nums with
      | nil => cases hnums
      | cons n nums =>
        obtain ⟨hn, hrest⟩ := cons.inj hnums
        rw [mapM_cons, hf v n hn, ok_bind, ih hrest]
        rfl
  have hvalues : values.isEmpty = false := by
    rw [isEmpty_eq_false_iff]
    rintro rfl
    exact hne (map_eq_nil_iff.mp hnums.symm)
  rw [mean, if_neg (Bool.eq_false_iff.mp hvalues)]
  simp only
  rw [hread]
  · refine ⟨fun rs hrs => ?_, fun hnone => ?_⟩
    · simp only [ok_bind, hrs, ← sum_eq_foldl]
      exact ⟨_, rfl⟩
    · simp only [ok_bind, hnone]
      exact ⟨_, rfl⟩
  · intro v n hn
    simp only [hn]

theorem mean_of_numbers (hfits : ∀ n ∈ nums, n.fitsFloat) : ∃ n x, mean values = .ok n ∧ n.toFloat = .ok x := by
  obtain ⟨hexact, hspecial⟩ := mean_eq hne hnums
  cases hrs : nums.mapM exactValue? with
  | none =>
    obtain ⟨x, hx⟩ := hspecial hrs
    exact ⟨_, x, hx, rfl⟩
  | some rs =>
    obtain ⟨whole, hmean⟩ := hexact rs hrs
    rw [mapM_eq_some_iff] at hrs
    have hpos : 0 < rs.length := by
      have hlength := congrArg length hrs
      rw [length_map, length_map] at hlength
      exact hlength ▸ length_pos_iff.mpr hne
    have hsmall : ∀ r ∈ rs, |r| < limit := by
      intro r hr
      have hmem : some r ∈ nums.map exactValue? := hrs ▸ mem_map_of_mem hr
      obtain ⟨n, hn, hvalue⟩ := mem_map.mp hmem
      exact abs_exactValue_lt (hfits n hn) hvalue
    have hmid : |rs.sum / rs.length| < limit := by
      rw [abs_div, Nat.abs_cast, div_lt_iff₀ (by exact_mod_cast hpos), mul_comm]
      exact abs_sum_lt (length_pos_iff.mp hpos) hsmall
    obtain ⟨n, hn, hfloat, -⟩ := nearest_eq hmid whole
    exact ⟨n, _, hmean.trans hn, hfloat⟩

theorem mean_of_equal (hq : ∀ n ∈ nums, exactValue? n = some q) : ∃ whole, mean values = nearest whole q := by
  have hrs : nums.mapM exactValue? = some (replicate nums.length q) := by
    rw [mapM_eq_some_iff, map_replicate]
    exact eq_replicate_iff.mpr ⟨length_map _, by simpa using hq⟩
  have hpos : (nums.length : ℚ) ≠ 0 := by simpa using hne
  obtain ⟨whole, hmean⟩ := (mean_eq hne hnums).1 _ hrs
  refine ⟨whole, hmean.trans ?_⟩
  rw [sum_replicate, length_replicate, nsmul_eq_mul, mul_div_cancel_left₀ _ hpos]

omit hne hnums

theorem sub_eq (ha : a.toFloat = .ok x) (hb : b.toFloat = .ok y) :
    (∃ m n, a = .int m ∧ b = .int n ∧ a.sub b = .ok (.int (m - n))) ∨ a.sub b = .ok (.float (x - y)) := by
  have hfloat (h : a.sub b = a.toFloat >>= fun x => b.toFloat >>= fun y => .ok (.float (x - y))) :
      a.sub b = .ok (.float (x - y)) := by
    rw [h, ha, hb]
    rfl
  cases a with
  | int m =>
    cases b with
    | int n => exact .inl ⟨m, n, rfl, rfl, rfl⟩
    | float _ => exact .inr (hfloat rfl)
  | float _ => exact .inr (hfloat rfl)

theorem trend_eq (hlength : 2 ≤ values.length) {start stop : Num}
    (hstart : mean (values.take (values.length / 3)) = .ok start)
    (hstop : mean (values.drop (values.length - (values.length + 2) / 3)) = .ok stop)
    (hx : start.toFloat = .ok x) (hy : stop.toFloat = .ok y) :
    ∃ diff, stop.sub start = .ok diff ∧ trend values = .ok (if diff.abs.lt (.float (0.1 * x)) then .stable
      else if Num.lt (.int 0) diff then .increasing else .decreasing) := by
  obtain ⟨diff, hdiff⟩ : ∃ diff, stop.sub start = .ok diff := by
    obtain ⟨m, n, -, -, h⟩ | h := sub_eq hy hx <;> exact ⟨_, h⟩
  have htolerance : (Num.float 0.1).mul start = .ok (.float (0.1 * x)) := by
    change (start.toFloat >>= fun y => .ok (.float (0.1 * y))) = (.ok (.float (0.1 * x)) : Outcome Num)
    rw [hx]
    rfl
  refine ⟨diff, hdiff, ?_⟩
  rw [trend, if_neg (by omega)]
  simp only [thirds, hstart, hstop, hdiff, htolerance, ok_bind]
  split_ifs <;> rfl

theorem abs_lt_of_zero {diff : Num} (h : diff = .int 0 ∨ diff = .float 0.0) (y : Float) :
    (diff.abs.lt (.float y) ↔ 0.0 < y) ∧ Num.lt (.int 0) diff = false := by
  obtain rfl | rfl := h
  · exact ⟨lt_zero_float y, by decide⟩
  · refine ⟨?_, by decide +kernel⟩
    have habs : (Num.float 0.0).abs = .float 0.0 := congrArg Num.float (by decide)
    rw [habs, Num.lt, Num.compare?]
    split_ifs <;> simp_all

/-- A series of three numbers or more has a trend, and one of two has none: its first third is
empty. The trend of equal numbers is stable if a tenth of them, as a floating number, is positive,
and decreasing otherwise. -/
theorem trend_of_numbers (hlength : 2 ≤ values.length)
    (hnums : values.map (·.number?) = nums.map some) (hfits : ∀ n ∈ nums, n.fitsFloat) :
    ((∃ t, trend values = .ok t) ↔ 3 ≤ values.length) ∧
    ∀ q, (∀ n ∈ nums, exactValue? n = some q) → 3 ≤ values.length →
      trend values = .ok (if 0.0 < 0.1 * floatOf q then .stable else .decreasing) := by
  have hsame : values.length = nums.length := by simpa using congrArg length hnums
  have htake (k : Nat) : (values.take k).map (·.number?) = (nums.take k).map some := by rw [map_take, hnums, map_take]
  have hdrop (k : Nat) : (values.drop k).map (·.number?) = (nums.drop k).map some := by rw [map_drop, hnums, map_drop]
  have hfirst (hlong : 3 ≤ values.length) : nums.take (values.length / 3) ≠ [] := by
    apply ne_nil_of_length_pos
    rw [length_take]
    omega
  have hlast : nums.drop (values.length - (values.length + 2) / 3) ≠ [] := by
    apply ne_nil_of_length_pos
    rw [length_drop]
    omega
  refine ⟨⟨fun ⟨t, ht⟩ => ?_, fun hlong => ?_⟩, fun q hq hlong => ?_⟩
  · by_contra hshort
    have htwo : values.length = 2 := by omega
    rw [trend, if_neg (by omega), htwo] at ht
    cases ht
  · obtain ⟨start, x, hstart, hx⟩ := mean_of_numbers (hfirst hlong) (htake _) fun n hn => hfits n (mem_of_mem_take hn)
    obtain ⟨stop, y, hstop, hy⟩ := mean_of_numbers hlast (hdrop _) fun n hn => hfits n (mem_of_mem_drop hn)
    obtain ⟨diff, -, htrend⟩ := trend_eq hlength hstart hstop hx hy
    exact ⟨_, htrend⟩
  · obtain ⟨n, hn⟩ := exists_mem_of_ne_nil nums (ne_nil_of_length_pos (by omega))
    have hsmall := abs_exactValue_lt (hfits n hn) (hq n hn)
    obtain ⟨d, hd⟩ := exists_ofFloat?_floatOf hsmall
    obtain ⟨whole, hstart⟩ := mean_of_equal (hfirst hlong) (htake _) fun n hn => hq n (mem_of_mem_take hn)
    obtain ⟨whole', hstop⟩ := mean_of_equal hlast (hdrop _) fun n hn => hq n (mem_of_mem_drop hn)
    obtain ⟨start, hnear, hx, hkind⟩ := nearest_eq hsmall whole
    obtain ⟨stop, hnear', hy, hkind'⟩ := nearest_eq hsmall whole'
    obtain ⟨diff, hdiff, htrend⟩ := trend_eq hlength (hstart.trans hnear) (hstop.trans hnear') hx hy
    have hzero : diff = .int 0 ∨ diff = .float 0.0 := by
      obtain ⟨m, k, rfl, rfl, h⟩ | h := sub_eq hy hx <;> cases hdiff.symm.trans h
      · simp_all
      · exact .inr (congrArg Num.float (sub_self_of_ofFloat? hd))
    obtain ⟨hstable, hrise⟩ := abs_lt_of_zero hzero (0.1 * floatOf q)
    simpa [hstable, hrise] using htrend

theorem trend_of_numbers_mixed : let values : List Value := [.int 5, .float 5.0, .int 5]
    let nums : List Num := [.int 5, .float 5.0, .int 5]
    values.map (·.number?) = nums.map some ∧ (∀ n ∈ nums, n.fitsFloat) ∧
      (∀ n ∈ nums, exactValue? n = some 5) ∧ trend values = .ok .stable := by
  intro values nums
  have hfits : ∀ n ∈ nums, n.fitsFloat := by
    simp only [nums, forall_mem_cons]
    decide +kernel
  have hequal : ∀ n ∈ nums, exactValue? n = some 5 := by
    simp only [nums, forall_mem_cons]
    decide +kernel
  have hnums : values.map (·.number?) = nums.map some := rfl
  have htrend := (trend_of_numbers (by decide) hnums hfits).2 5 hequal (by decide)
  rw [if_pos (by decide)] at htrend
  exact ⟨hnums, hfits, hequal, htrend⟩

/-- Zeros, equal negative numbers, and two numbers. -/
theorem trend_of_equal_not_stable :
    (trend [.int 0, .int 0, .int 0]).toOption.map Trend.word = some "decreasing" ∧
    (trend [.int (-1), .int (-1), .int (-1)]).toOption.map Trend.word = some "decreasing" ∧
    trend [.int 5, .int 5] = .error (.noData "mean requires at least one data point") :=
  ⟨by decide +kernel, by decide +kernel, rfl⟩

end Scoring

end CodeAudit

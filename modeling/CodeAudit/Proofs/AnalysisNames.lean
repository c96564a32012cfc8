import CodeAudit.Proofs.AnalysisQueue
import CodeAudit.Proofs.NumberText

/-! The names of analyses. A name is the text of a floating number of seconds, so two analyses share
one exactly if their seconds are rounded alike. -/

namespace CodeAudit

open Time

/-! The seconds of a clock reading. -/

variable {n : Nat}

theorem hasValue_ofNat_le (h : n < 2 ^ 53) : HasValue (Float.ofNat n) n := by
  rcases Nat.eq_zero_or_pos n with rfl | hpos
  · have hzero : Float.ofNat 0 = 0.0 := by decide
    rw [hzero, Nat.cast_zero]
    exact hasValue_zero
  · exact hasValue_ofNat hpos h

theorem hasValue_million : HasValue 1000000.0 1000000 := by
  obtain ⟨r, hr, hround⟩ := hasValue_tenths (n := 10000000) (by norm_num) (by norm_num)
  have hgrid : OnGrid 1000000 := onGrid_natCast (n := 1000000) (by norm_num)
  have hvalue : ((10000000 : Nat) : ℚ) / 10 = 1000000 := by norm_num
  rw [hvalue] at hround
  rwa [hround.eq hgrid] at hr

theorem hasValue_micros (h : n < 1000000) :
    ∃ r, HasValue (Float.ofNat n / 1000000.0) r ∧ RoundsTo (n / 1000000) r := by
  have hmost : (n : ℚ) ≤ 1000000 := by exact_mod_cast h.le
  exact (hasValue_ofNat_le (by omega)).div hasValue_million (by norm_num) (by linarith)

theorem hasValue_seconds (h : n < 2 ^ 52 * 1000000) :
    ∃ r x, RoundsTo ((n % 1000000 : Nat) / 1000000) r ∧ HasValue (secondsOfMicros n) x ∧
      RoundsTo ((n / 1000000 : Nat) + r) x ∧ r ≤ 1 := by
  have hwhole : n / 1000000 < 2 ^ 52 := Nat.div_lt_of_lt_mul (by omega)
  have hpart : n % 1000000 < 1000000 := Nat.mod_lt n (by norm_num)
  obtain ⟨r, hr, hround⟩ := hasValue_micros hpart
  have hfraction : ((n % 1000000 : Nat) : ℚ) ≤ 1000000 := by exact_mod_cast hpart.le
  have hle : r ≤ 1 := by
    refine hround.above 1 (onGrid_natCast (n := 1) (by norm_num)) ?_
    linarith
  have hbound : ((n / 1000000 : Nat) : ℚ) + r ≤ 2 ^ 53 := by
    have : ((n / 1000000 : Nat) : ℚ) ≤ 2 ^ 52 := by exact_mod_cast hwhole.le
    linarith
  obtain ⟨x, hx, hsum⟩ := (hasValue_ofNat_le (n := n / 1000000) (by omega)).add hr hbound
  exact ⟨r, x, hround, hx, hsum, hle⟩

theorem seconds_near (h : n < 2 ^ 32 * 1000000) :
    ∃ x, HasValue (secondsOfMicros n) x ∧ 2000000 * x < 2 * n + 1 ∧ 2 * n - 1 < 2000000 * x := by
  obtain ⟨r, x, hround, hx, hsum, hle⟩ := hasValue_seconds (n := n) (by omega)
  have hsplit : (n : ℚ) = 1000000 * (n / 1000000 : Nat) + (n % 1000000 : Nat) := by
    exact_mod_cast (Nat.div_add_mod n 1000000).symm
  have hnonneg : (0 : ℚ) ≤ r := hround.below 0 (onGrid_natCast (n := 0) (by norm_num)) (by positivity)
  have hpart : ((n % 1000000 : Nat) : ℚ) ≤ 1000000 := by exact_mod_cast (Nat.mod_lt n (by norm_num)).le
  have hwhole : ((n / 1000000 : Nat) : ℚ) + 1 ≤ 2 ^ 32 := by
    exact_mod_cast (Nat.div_lt_of_lt_mul (by omega) : n / 1000000 < 2 ^ 32)
  obtain ⟨hlow, hhigh⟩ := hround.dist_le (i := -53) (by norm_num) (by positivity) (by norm_num; linarith)
  obtain ⟨hlow', hhigh'⟩ := hsum.dist_le (i := -21) (by norm_num) (by positivity) (by norm_num at hwhole ⊢; linarith)
  refine ⟨x, hx, ?_, ?_⟩
  · norm_num at hhigh hhigh'
    linarith
  · norm_num at hlow hlow'
    linarith

theorem seconds_injective {m n : Nat} (hm : m < 2 ^ 32 * 1000000) (hn : n < 2 ^ 32 * 1000000)
    (h : secondsOfMicros m = secondsOfMicros n) : m = n := by
  obtain ⟨x, hx, hlow, hhigh⟩ := seconds_near hm
  obtain ⟨y, hy, hlow', hhigh'⟩ := seconds_near hn
  rw [h] at hx
  obtain rfl := hx.unique hy
  have hle : (2 * m : ℚ) < 2 * n + 2 := by linarith
  have hge : (2 * n : ℚ) < 2 * m + 2 := by linarith
  norm_cast at hle hge
  omega

end CodeAudit

namespace CodeAudit.Queue

open Time

theorem idAt_inj {m n : Nat} (hm : m < 2 ^ 52 * 1000000) (hn : n < 2 ^ 52 * 1000000) :
    idAt m = idAt n ↔ secondsOfMicros m = secondsOfMicros n := by
  refine ⟨fun h => ?_, fun h => by rw [idAt, h, idAt]⟩
  obtain ⟨_, x, -, hx, -⟩ := hasValue_seconds hm
  obtain ⟨_, y, -, hy, -⟩ := hasValue_seconds hn
  obtain ⟨d, hd, -⟩ := hx.ofFloat?
  obtain ⟨e, he, -⟩ := hy.ofFloat?
  have htext : (floatText (secondsOfMicros m)).toList = (floatText (secondsOfMicros n)).toList := by
    have := congrArg String.toList h
    rw [idAt, idAt, String.toList_append, String.toList_append] at this
    exact List.append_cancel_left this
  -- Reading the text back gives the number.
  have hends : Json.Ends [] := by simp [Json.Ends]
  have hread := Json.number?_floatText hd hends
  rw [htext, Json.number?_floatText he hends] at hread
  simpa using hread.symm

/-! The names of a run. -/

def Event.reading? : Event → Option Int
  | .enqueue micros _ => some micros
  | _ => none

def readings (events : List Event) : List Int := events.filterMap Event.reading?

theorem names_arrivals (events : List Event) : (arrivals events).map Analysis.id = (readings events).map idAt := by
  induction events using List.reverseRecOn with
  | nil => rfl
  | append_singleton events e ih =>
    rw [arrivals_snoc, readings, List.filterMap_append, List.map_append, List.map_append, ih]
    cases e <;> rfl

/-- For every schedule under a clock from 1970 on that never goes back: the names of the analyses
that came in are all different if and only if their seconds are, as floating numbers. Up to the year
2106 this is so if and only if every call reads a later microsecond than the one before it. -/
theorem names_nodup_iff (permits count : Nat) (events : List Event)
    (hclock : (readings events).Pairwise (· ≤ ·))
    (hrange : ∀ t ∈ readings events, 0 ≤ t ∧ t ≤ lastMoment) :
    let q := (opened permits count).run events
    let names := (q.handed ++ q.pending).map Analysis.id
    (names.Nodup ↔ (readings events).Pairwise (secondsOfMicros · ≠ secondsOfMicros ·)) ∧
      ((∀ t ∈ readings events, t < 2 ^ 32 * 1000000) → (names.Nodup ↔ (readings events).Pairwise (· < ·))) := by
  intro q names
  have hnames : names = (readings events).map idAt := by
    change (q.handed ++ q.pending).map Analysis.id = _
    rw [(books_run permits count events).inOrder, names_arrivals]
  have hdiffer : names.Nodup ↔ (readings events).Pairwise (secondsOfMicros · ≠ secondsOfMicros ·) := by
    rw [hnames, List.Nodup, List.pairwise_map]
    refine List.Pairwise.iff_of_mem fun {s t} hs ht => not_congr ?_
    obtain ⟨hleast, hmost⟩ := hrange s hs
    obtain ⟨hleast', hmost'⟩ := hrange t ht
    lift s to Nat using hleast
    lift t to Nat using hleast'
    unfold lastMoment at hmost hmost'
    exact idAt_inj (by omega) (by omega)
  refine ⟨hdiffer, fun hearly => hdiffer.trans ⟨fun hne => ?_, fun hlt => ?_⟩⟩
  · refine (hclock.and hne).imp fun {s t} h => lt_of_le_of_ne h.1 ?_
    rintro rfl
    exact h.2 rfl
  · refine hlt.imp_of_mem fun {s t} hs ht hlt heq => hlt.ne ?_
    obtain ⟨hleast, -⟩ := hrange s hs
    obtain ⟨hleast', -⟩ := hrange t ht
    have hs' := hearly s hs
    have ht' := hearly t ht
    lift s to Nat using hleast
    lift t to Nat using hleast'
    exact_mod_cast seconds_injective (by exact_mod_cast hs') (by exact_mod_cast ht') heq

def neighbours : List Event := [.enqueue 1704067200000000 .null, .acquire 0, .take 0, .enqueue 1704067200000001 .null]

theorem names_nodup_iff_neighbours :
    (readings neighbours).Pairwise (· ≤ ·) ∧ (∀ t ∈ readings neighbours, 0 ≤ t ∧ t ≤ lastMoment) ∧
      ((((opened 5 1).run neighbours).handed ++
        ((opened 5 1).run neighbours).pending).map Analysis.id).Nodup := by
  have hreadings : readings neighbours = [1704067200000000, 1704067200000001] := rfl
  have hclock : (readings neighbours).Pairwise (· ≤ ·) := by
    rw [hreadings]
    decide
  have hrange : ∀ t ∈ readings neighbours, 0 ≤ t ∧ t ≤ lastMoment := by
    rw [hreadings]
    decide
  refine ⟨hclock, hrange, ((names_nodup_iff 5 1 neighbours hclock hrange).2 ?_).mpr ?_⟩ <;>
  · rw [hreadings]
    decide

/-- Two analyses that come in at one reading of the clock have one name. -/
theorem name_given_twice :
    ∃ events, (readings events).Pairwise (· ≤ ·) ∧ (readings events).length = 2 ∧
      ¬ ((((opened 5 0).run events).handed ++
        ((opened 5 0).run events).pending).map Analysis.id).Nodup := by
  refine ⟨[.enqueue 1704067200000000 (.int 1), .enqueue 1704067200000000 (.int 2)], by decide, rfl, ?_⟩
  intro h
  exact (List.nodup_cons.mp h).1 (List.mem_singleton_self _)

end CodeAudit.Queue

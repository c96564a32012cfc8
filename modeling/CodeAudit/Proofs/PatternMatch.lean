import Mathlib.Data.List.Basic
import CodeAudit.Pattern.Basic

/-! What a pattern matches, told without the search: a part of a text and the signs beside it
decide. -/

namespace CodeAudit.Pattern

open List

/-- A kind of part of a text, told of what stands before it, backwards, of the part itself and of
what stands after. -/
abbrev Part := Chars → Chars → Chars → Prop

def Repeated (part : Part) : Nat → Part
  | 0, _, s, _ => s = []
  | n + 1, before, s, after =>
    ∃ x y, s = x ++ y ∧ part before x (y ++ after) ∧ Repeated part n (x.reverse ++ before) y after

def Within (part : Part) (least : Nat) (most : Option Nat) : Part := fun before s after =>
  ∃ n, least ≤ n ∧ (∀ m ∈ most, n ≤ m) ∧ Repeated part n before s after

def side (flags : PatternFlags) (s : Chars) : Bool := (s.head?.map (CharItem.wordChar.holds flags)).getD false

theorem side_eq_false {flags : PatternFlags} {s : Chars} (h : ∀ c ∈ s.head?, c = ' ' ∨ c = '\n') :
    side flags s = false := by
  cases s with
  | nil => rfl
  | cons c s =>
    have hc : isWordChar c = false := by rcases h c rfl with rfl | rfl <;> decide
    simp [side, CharItem.holds, hc]

def Spans (flags : PatternFlags) : Pattern → Part
  | .empty, _, s, _ => s = []
  | .lit d, _, s, _ => ∃ c, s = [c] ∧ sameChar flags d c = true
  | .any, _, s, _ => ∃ c, s = [c] ∧ (flags.dotAll || c != '\n') = true
  | .set negated items, _, s, _ => ∃ c, s = [c] ∧ (holdsAny flags items c != negated) = true
  | .seq p q, before, s, after =>
    ∃ x y, s = x ++ y ∧ Spans flags p before x (y ++ after) ∧ Spans flags q (x.reverse ++ before) y after
  | .alt p q, before, s, after => Spans flags p before s after ∨ Spans flags q before s after
  | .times least most _ p, before, s, after => Within (Spans flags p) least most before s after
  | .textStart, before, s, _ => s = [] ∧ before = []
  | .textEnd, _, s, after => s = [] ∧ (after = [] ∨ after = ['\n'])
  | .boundary, before, s, after => s = [] ∧ side flags before ≠ side flags after
  | _, _, _, _ => False

def isPlain : Pattern → Bool
  | .empty | .lit _ | .any | .set _ _ | .textStart | .textEnd | .boundary => true
  | .seq p q | .alt p q => p.isPlain && q.isPlain
  | .times least most _ p => most.all (least ≤ ·) && p.isPlain
  | _ => false

def Cursor.past (c : Cursor) (s rest : Chars) : Cursor :=
  { c with before := s.reverse ++ c.before, ahead := rest, offset := c.offset + s.length }

/-- A search from a place: it gives what its continuation gives after a part of some kind, and gives
something if there is a part after which that does. -/
structure FindsAt (c : Cursor) (search : Continuation → Option Cursor) (part : Part) : Prop where
  sound : ∀ {k e}, search k = .some e → ∃ s rest, c.ahead = s ++ rest ∧ part c.before s rest ∧
    k (c.past s rest) = .some e
  complete : ∀ {k s rest}, c.ahead = s ++ rest → part c.before s rest → (k (c.past s rest)).isSome → (search k).isSome

namespace FindsAt

variable {c : Cursor} {search other : Continuation → Option Cursor} {part part' : Part}

theorem check {test : Bool} {P : Chars → Chars → Prop} (h : test ↔ P c.before c.ahead) :
    FindsAt c (check test c) fun before s after => s = [] ∧ P before after where
  sound hk := by
    rw [Pattern.check] at hk
    split_ifs at hk with ht
    exact ⟨[], c.ahead, rfl, ⟨rfl, h.mp ht⟩, hk⟩
  complete := by
    rintro k s rest hs ⟨rfl, hP⟩ hk
    obtain rfl : c.ahead = rest := hs
    rwa [Pattern.check, if_pos (h.mpr hP)]

theorem step (test : Char → Bool) (c : Cursor) : FindsAt c (step test c) fun _ s _ => ∃ d, s = [d] ∧ test d := by
  obtain ⟨before, ahead, offset, groups⟩ := c
  cases ahead with
  | nil => exact ⟨by simp [Pattern.step, Cursor.next?], by simp⟩
  | cons d rest =>
    constructor
    · intro k e h
      simp only [Pattern.step, Cursor.next?] at h
      split_ifs at h with hd
      exact ⟨[d], rest, rfl, ⟨d, rfl, hd⟩, h⟩
    · rintro k s after hs ⟨e, rfl, he⟩ h
      obtain ⟨rfl, rfl⟩ := cons.inj hs
      simp only [Pattern.step, Cursor.next?]
      rwa [if_pos he]

theorem congr (h : FindsAt c search part) (hiff : ∀ s rest, part c.before s rest ↔ part' c.before s rest) :
    FindsAt c search part' :=
  ⟨fun hk => by simpa only [hiff] using h.sound hk, fun hs hpart => h.complete hs ((hiff _ _).mpr hpart)⟩

theorem stop (c : Cursor) : FindsAt c (fun k => k c) fun _ s _ => s = [] :=
  (@check c true (fun _ _ => True) (by simp)).congr (by simp)

theorem or (h : FindsAt c search part) (h' : FindsAt c other part') {both : Continuation → Option Cursor}
    (hboth : ∀ k, both k = (search k).or (other k) ∨ both k = (other k).or (search k)) :
    FindsAt c both fun before s after => part before s after ∨ part' before s after where
  sound {k e} hk := by
    have hone : search k = .some e ∨ other k = .some e := by
      rcases hboth k with hb | hb <;> rw [hb, Option.or_eq_some_iff] at hk <;> tauto
    rcases hone with hone | hone
    · obtain ⟨s, rest, hs, hpart, hk⟩ := h.sound hone
      exact ⟨s, rest, hs, .inl hpart, hk⟩
    · obtain ⟨s, rest, hs, hpart, hk⟩ := h'.sound hone
      exact ⟨s, rest, hs, .inr hpart, hk⟩
  complete {k s rest} hs hpart hk := by
    have hone : (search k).isSome ∨ (other k).isSome := hpart.imp (h.complete hs · hk) (h'.complete hs · hk)
    rcases hboth k with hb | hb <;> rw [hb, Option.isSome_or] <;> simpa [or_comm] using hone

theorem seq {g : Cursor → Continuation → Option Cursor} {after : Chars → Part} (h : FindsAt c search part)
    (hg : ∀ x r, c.ahead = x ++ r → FindsAt (c.past x r) (g (c.past x r)) (after x)) :
    FindsAt c (fun k => search fun c' => g c' k) fun before s rest =>
      ∃ x y, s = x ++ y ∧ part before x (y ++ rest) ∧ after x (x.reverse ++ before) y rest := by
  have hpast (x r y rest : Chars) : (c.past x r).past y rest = c.past (x ++ y) rest := by
    simp [Cursor.past, Nat.add_assoc]
  constructor
  · intro k e hk
    obtain ⟨x, r, hx, hpart, hk⟩ := h.sound hk
    obtain ⟨y, rest, hy, hafter, hk⟩ := (hg x r hx).sound hk
    obtain rfl : r = y ++ rest := hy
    exact ⟨x ++ y, rest, by simpa using hx, ⟨x, y, rfl, hpart, hafter⟩, hpast x _ y rest ▸ hk⟩
  · rintro k s rest hs ⟨x, y, rfl, hpart, hafter⟩ hk
    rw [append_assoc] at hs
    exact h.complete hs hpart ((hg x _ hs).complete rfl hafter ((hpast x _ y rest).symm ▸ hk))

end FindsAt

section Iterate

variable {part : Part} {least : Nat} {most : Option Nat}

theorem le_pred_iff (hmost : ∀ m ∈ most, 0 < m) {n : Nat} :
    (∀ m ∈ most.map (· - 1), n ≤ m) ↔ ∀ m ∈ most, n + 1 ≤ m := by
  cases most with
  | none => simp
  | some m =>
    have := hmost m rfl
    simp only [Option.map_some, Option.mem_some, forall_eq']
    omega

variable {before s after : Chars}

theorem within_succ_iff (hmost : ∀ m ∈ most, 0 < m) :
    (∃ x y, s = x ++ y ∧ part before x (y ++ after) ∧
      Within part least (most.map (· - 1)) (x.reverse ++ before) y after) ↔
      Within part (least + 1) most before s after := by
  constructor
  · rintro ⟨x, y, rfl, hx, n, hn, hm, hy⟩
    exact ⟨n + 1, by omega, (le_pred_iff hmost).mp hm, x, y, rfl, hx, hy⟩
  · rintro ⟨n, hn, hm, hrep⟩
    obtain ⟨n, rfl⟩ : ∃ j, n = j + 1 := ⟨n - 1, by omega⟩
    obtain ⟨x, y, hs, hx, hy⟩ := hrep
    exact ⟨x, y, hs, hx, n, by omega, (le_pred_iff hmost).mpr hm, hy⟩

theorem within_zero_iff (hmost : ∀ m ∈ most, 0 < m) :
    (s = [] ∨ ∃ x y, s = x ++ y ∧ part before x (y ++ after) ∧
      if x = [] then y = [] else Within part 0 (most.map (· - 1)) (x.reverse ++ before) y after) ↔
      Within part 0 most before s after := by
  constructor
  · rintro (rfl | ⟨x, y, rfl, hx, hy⟩)
    · exact ⟨0, Nat.le_refl 0, by simp, rfl⟩
    · split_ifs at hy with hnil
      · exact ⟨0, Nat.le_refl 0, by simp, by simp [Repeated, hnil, hy]⟩
      · obtain ⟨n, -, hn⟩ := (within_succ_iff hmost).mp ⟨x, y, rfl, hx, hy⟩
        exact ⟨n, Nat.zero_le n, hn⟩
  · rintro ⟨n, -, hm, hrep⟩
    induction n generalizing s with
    | zero => exact .inl hrep
    | succ n ih =>
      obtain ⟨x, y, rfl, hx, hy⟩ := hrep
      by_cases hnil : x = []
      · subst hnil
        exact ih (fun m h => by have := hm m h; omega) hy
      · exact .inr ⟨x, y, rfl, hx, by rw [if_neg hnil]; exact ⟨n, Nat.zero_le n, (le_pred_iff hmost).mpr hm, hy⟩⟩

theorem findsAt_iterate {body : Cursor → Continuation → Option Cursor}
    (hbody : ∀ c, FindsAt c (body c) part) (greedy : Bool) {fuel : Nat} {c : Cursor}
    (hfuel : least + c.ahead.length < fuel) (hmost : ∀ m ∈ most, least ≤ m) :
    FindsAt c (iterate body greedy fuel least most c) (Within part least most) := by
  induction fuel generalizing least most c with
  | zero => omega
  | succ fuel ih =>
    have hshort {x r : Chars} (hx : c.ahead = x ++ r) : r.length + x.length = c.ahead.length := by
      rw [hx, length_append, Nat.add_comm]
    cases least with
    | succ least =>
      have hpos : ∀ m ∈ most, 0 < m := fun m hm => by have := hmost m hm; omega
      refine ((hbody c).seq fun x r hx => ih ?_ ((le_pred_iff hpos).mpr hmost)).congr fun _ _ => within_succ_iff hpos
      have := hshort hx
      simp only [Cursor.past]
      omega
    | zero =>
      by_cases hm : most = .some 0
      · subst hm
        refine (FindsAt.stop c).congr fun s rest => ⟨fun h => ⟨0, Nat.le_refl 0, by simp, h⟩, ?_⟩
        rintro ⟨n, -, hn, hrep⟩
        obtain rfl : n = 0 := by simpa using hn 0 rfl
        exact hrep
      have hpos : ∀ m ∈ most, 0 < m := fun m hmem => Nat.pos_of_ne_zero fun h0 => hm (h0 ▸ hmem)
      -- a part that takes text leaves less of it, so the fuel lasts; one that takes none is the
      -- last
      have hnext (x r : Chars) (hx : c.ahead = x ++ r) : FindsAt (c.past x r)
          (fun k => if (c.past x r).offset = c.offset then k (c.past x r)
            else iterate body greedy fuel 0 (most.map (· - 1)) (c.past x r) k)
          fun before s after => if x = [] then s = [] else Within part 0 (most.map (· - 1)) before s after := by
        by_cases hnil : x = []
        · subst hnil
          simpa [Cursor.past] using FindsAt.stop (c.past [] r)
        · have hlen := length_pos_iff.mpr hnil
          have hne : (c.past x r).offset ≠ c.offset := by simp only [Cursor.past]; omega
          simp only [if_neg hne, if_neg hnil]
          exact ih (by have := hshort hx; simp only [Cursor.past]; omega) (by simp)
      have hmore := (hbody c).seq (g := fun c' k => if c'.offset = c.offset then k c' else _) hnext
      refine ((FindsAt.stop c).or hmore fun k => ?_).congr fun _ _ => within_zero_iff hpos
      simp only [iterate, if_neg hm]
      cases greedy
      · exact .inl (by cases k c <;> rfl)
      · exact .inr (by cases body c _ <;> rfl)

end Iterate

theorem isPlain_chars (w : Chars) : (chars w).isPlain := by
  fun_induction chars w with
  | case1 => rfl
  | case2 => rfl
  | case3 c rest _ ih => simpa [isPlain] using ih

theorem spans_chars {w before s after : Chars} : Spans {} (chars w) before s after ↔ s = w := by
  fun_induction chars w generalizing before s with
  | case1 => rfl
  | case2 c => simp [Spans, sameChar]
  | case3 c rest _ ih =>
    simp only [Spans, ih, sameChar]
    simp

variable {flags : PatternFlags} {p : Pattern} (h : p.isPlain)

include h

theorem findsAt_run (c : Cursor) : FindsAt c (run flags p c) (Spans flags p) := by
  induction p generalizing c with
  | empty => exact FindsAt.stop c
  | lit d => exact FindsAt.step _ c
  | any => exact FindsAt.step _ c
  | set negated items => exact FindsAt.step _ c
  | seq p q ihp ihq =>
    obtain ⟨hp, hq⟩ := Bool.and_eq_true_iff.mp h
    exact (ihp hp c).seq fun x r _ => ihq hq _
  | alt p q ihp ihq =>
    obtain ⟨hp, hq⟩ := Bool.and_eq_true_iff.mp h
    refine (ihp hp c).or (ihq hq c) fun k => .inl ?_
    rw [run]
    cases run flags p c k <;> rfl
  | times least most greedy p ih =>
    obtain ⟨hmost, hp⟩ := Bool.and_eq_true_iff.mp h
    exact findsAt_iterate (ih hp) greedy (by omega) (by cases most <;> simp_all)
  | textStart => exact FindsAt.check (by simp)
  | textEnd => exact FindsAt.check (by simp)
  | boundary => exact FindsAt.check (by simp [Cursor.atBoundary, side])
  | _ => cases h

theorem run_isSome_iff (c : Cursor) : (run flags p c .some).isSome ↔
    ∃ s rest, c.ahead = s ++ rest ∧ Spans flags p c.before s rest := by
  constructor
  · intro hrun
    obtain ⟨e, he⟩ := Option.isSome_iff_exists.mp hrun
    obtain ⟨s, rest, hs, hspans, -⟩ := (findsAt_run h c).sound he
    exact ⟨s, rest, hs, hspans⟩
  · rintro ⟨s, rest, hs, hspans⟩
    exact (findsAt_run h c).complete hs hspans rfl

theorem searchFrom_isSome_iff {fuel : Nat} {c : Cursor} (hfuel : c.ahead.length < fuel) :
    (searchFrom flags p fuel false c).isSome ↔ ∃ skipped s rest, c.ahead = skipped ++ (s ++ rest) ∧
      Spans flags p (skipped.reverse ++ c.before) s rest := by
  induction fuel generalizing c with
  | zero => omega
  | succ fuel ih =>
    have hhere : (matchAt flags p false c).isSome ↔
        ∃ s rest, c.ahead = s ++ rest ∧ Spans flags p c.before s rest := by
      rw [matchAt, Option.isSome_map]
      exact run_isSome_iff h { c with groups := [] }
    obtain ⟨before, ahead, offset, groups⟩ := c
    cases ahead with
    | nil =>
      rw [searchFrom]
      cases hm : matchAt flags p false ⟨before, [], offset, groups⟩ <;> simp_all [Cursor.next?]
    | cons d ahead =>
      have hor : (searchFrom flags p (fuel + 1) false ⟨before, d :: ahead, offset, groups⟩).isSome ↔
          (matchAt flags p false ⟨before, d :: ahead, offset, groups⟩).isSome ∨
            (searchFrom flags p fuel false ⟨d :: before, ahead, offset + 1, groups⟩).isSome := by
        rw [searchFrom]
        cases matchAt flags p false ⟨before, d :: ahead, offset, groups⟩ <;> simp [Cursor.next?]
      rw [hor, hhere, ih (by simpa using hfuel)]
      constructor
      · rintro (⟨s, rest, hs, hspans⟩ | ⟨skipped, s, rest, hs, hspans⟩)
        · exact ⟨[], s, rest, hs, hspans⟩
        · exact ⟨d :: skipped, s, rest, congrArg (d :: ·) hs, by simpa using hspans⟩
      · rintro ⟨skipped, s, rest, hs, hspans⟩
        cases skipped with
        | nil => exact .inl ⟨s, rest, hs, hspans⟩
        | cons e skipped =>
          obtain ⟨rfl, htail⟩ := cons.inj hs
          exact .inr ⟨skipped, s, rest, htail, by simpa using hspans⟩

theorem occurs_iff (s : String) : occurs p s flags ↔
    ∃ before part after, s.toList = before ++ (part ++ after) ∧ Spans flags p before.reverse part after := by
  rw [occurs, searchFrom_isSome_iff h (by simp [Cursor.start, String.length_toList])]
  simp [Cursor.start]

end CodeAudit.Pattern

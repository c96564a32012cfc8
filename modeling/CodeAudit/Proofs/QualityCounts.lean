import CodeAudit.Analyzer.Quality

/-! The counts of the messages of a quality engine, by tool and by type. -/

namespace CodeAudit

open List

namespace Keyed

variable {κ α β : Type} {w : κ → α → Nat}

theorem sumOn_flatten (w : κ → α → Nat) (ts : List (Keyed κ α)) : sumOn w ts.flatten = sumOf (ts.map (sumOn w)) := by
  induction ts with
  | nil => rfl
  | cons t ts ih =>
    rw [flatten_cons, map_cons, sumOf, ← ih]
    induction t with
    | nil => simp [sumOn, sumOf]
    | cons e t ih =>
      simp only [sumOn, cons_append, map_cons, sumOf] at ih ⊢
      omega

variable [BEq κ] {t : Keyed κ α}

/-- A key that equals itself and nothing else. -/
def IsPlain (k : κ) : Prop := ∀ other, (other == k ↔ other = k) ∧ (k == other ↔ other = k)

theorem get?_put_plain {k : κ} (hk : IsPlain k) (key : κ) (v : α) (t : Keyed κ α) :
    (t.put key v).get? k = if k == key then some v else t.get? k := by
  induction t with
  | nil => rw [put, get?_cons, get?_nil]
  | cons e rest ih =>
    cases hkey : key == e.1 with
    | false =>
      rw [put, hkey, if_neg Bool.false_ne_true, get?_cons, get?_cons, ih]
      by_cases he : k == e.1
      · obtain rfl := (hk e.1).2.mp he
        have hne : ¬ e.1 == key := fun h => by
          obtain rfl := (hk key).2.mp h
          rw [h] at hkey
          cases hkey
        simp [he, hne]
      · simp [he]
    | true =>
      have hsame : k == e.1 ↔ k == key := by
        rw [(hk e.1).2, (hk key).2]
        constructor
        · rintro rfl
          exact (hk key).1.mp hkey
        · rintro rfl
          exact (hk e.1).2.mp hkey
      rw [put, if_pos hkey, get?_cons, get?_cons]
      simp only [hsame]
      split <;> rfl

/-- If each item changes what is kept under its key, each change adds to the sum what it adds to the
number there. -/
theorem sumOn_foldl {key : β → κ} {change : β → α → α} {fresh : α} {d : β → Nat}
    (hw : ∀ key k, key == k → w k = w key) (hfresh : ∀ k, w k fresh = 0)
    (hchange : ∀ b old, w (key b) (change b old) = w (key b) old + d b) (items : List β)
    (t : Keyed κ α) :
    sumOn w (items.foldl (fun t b => t.put (key b) (change b ((t.get? (key b)).getD fresh))) t) =
      sumOn w t + sumOf (items.map d) := by
  induction items generalizing t with
  | nil => rfl
  | cons b items ih =>
    have hput := sumOn_put (hw (key b)) (change b ((t.get? (key b)).getD fresh)) t
    have hold : ((t.get? (key b)).map (w (key b))).getD 0 = w (key b) ((t.get? (key b)).getD fresh) := by
      cases t.get? (key b) <;> simp [hfresh]
    rw [hchange, hold] at hput
    rw [foldl_cons, ih, map_cons, sumOf]
    omega

theorem foldl_some {change : β → α → α} {fresh : α} (own : List β) (a : α) :
    own.foldl (fun old b => some (change b (old.getD fresh))) (some a) =
      some (own.foldl (fun a b => change b a) a) := by
  induction own generalizing a with
  | nil => rfl
  | cons b own ih => exact ih (change b a)

/-- If each item changes what is kept under its key, a key that equals only itself has what its own
items make. -/
theorem get?_foldl {key : β → κ} {change : β → α → α} {fresh : α} {k : κ} (hk : IsPlain k)
    (items : List β) (t : Keyed κ α) :
    get? k (items.foldl (fun t b => put (key b) (change b ((get? (key b) t).getD fresh)) t) t) =
      (items.filter fun b => key b == k).foldl (fun old b => some (change b (old.getD fresh))) (t.get? k) := by
  induction items generalizing t with
  | nil => rfl
  | cons b items ih =>
    rw [foldl_cons, ih, get?_put_plain hk]
    by_cases hb : key b == k
    · obtain rfl := (hk (key b)).1.mp hb
      rw [if_pos hb, filter_cons, if_pos hb, foldl_cons]
    · have hother : ¬ k == key b := by rwa [(hk (key b)).2, ← (hk (key b)).1]
      rw [if_neg hother, filter_cons, if_neg hb]

/-- No key is kept twice. -/
def Distinct (t : Keyed κ α) : Prop := t.keys.Pairwise fun k later => ¬ later == k

theorem keys_put (key : κ) (v : α) (t : Keyed κ α) :
    (t.put key v).keys = t.keys ++ if t.has key then [] else [key] := by
  induction t with
  | nil => rfl
  | cons e rest ih =>
    rw [put, has, get?_cons]
    cases hk : key == e.1
    · exact congrArg (e.1 :: ·) ih
    · simp [keys]

theorem distinct_put (h : Distinct t) (key : κ) (v : α) : Distinct (t.put key v) := by
  rw [Distinct, keys_put, pairwise_append]
  refine ⟨h, by split <;> simp, fun k hk later hlater => ?_⟩
  split at hlater
  · cases hlater
  · next hnew =>
    obtain rfl := mem_singleton.mp hlater
    obtain ⟨e, he, rfl⟩ := mem_map.mp hk
    have hnone : t.lookup later = none := by
      rwa [has, Bool.not_eq_true, Option.isSome_eq_false_iff, Option.isNone_iff_eq_none] at hnew
    simpa [bne] using lookup_eq_none_iff.mp hnone e he

theorem distinct_foldl {key : β → κ} {value : β → Keyed κ α → α} (items : List β) (h : Distinct t) :
    Distinct (items.foldl (fun t b => t.put (key b) (value b t)) t) := by
  induction items generalizing t with
  | nil => exact h
  | cons b items ih => exact ih (distinct_put h (key b) (value b t))

end Keyed

namespace Analyzer.Quality

open Keyed

/-- Keys that are counted together: all of them, or those of a name. A tool may have no name. -/
inductive Heading where
  | all
  | named (name : Option String)

def Heading.holds : Heading → Key → Bool
  | .all, _ => true
  | .named name, k => k == ⟨.ofText? name⟩

/-- What a number under a key counts for. -/
def Heading.part (g : Heading) (k : Key) (n : Nat) : Nat := if g.holds k then n else 0

theorem isPlain_name (name : Option String) : IsPlain (⟨.ofText? name⟩ : Key) := by
  rintro ⟨v⟩
  change (v.equals (.ofText? name) ↔ _) ∧ ((Value.ofText? name).equals v ↔ _)
  cases name with
  | none => cases v <;> simp [Value.ofText?, Value.equals, Value.number?]
  | some s =>
    cases v with
    | text r => simp [Value.ofText?, Value.equals, @eq_comm _ s]
    | _ => simp [Value.ofText?, Value.equals, Value.number?]

variable (g : Heading)

theorem part_congr (key k : Key) (h : key == k) : g.part k = g.part key := by
  have hholds : g.holds k ↔ g.holds key := by
    cases g with
    | all => rfl
    | named name =>
      rw [Heading.holds, Heading.holds, (isPlain_name name k).1, (isPlain_name name key).1]
      constructor
      · rintro rfl
        exact (isPlain_name name key).1.mp h
      · rintro rfl
        exact (isPlain_name name k).2.mp h
  funext n
  simp only [Heading.part, hholds]

variable (k : Key)

theorem part_zero : g.part k 0 = 0 := ite_self _

theorem part_add (m n : Nat) : g.part k (m + n) = g.part k m + g.part k n := by
  unfold Heading.part
  cases g.holds k <;> rfl

theorem sumOf_part {α : Type} (key : α → Key) (as : List α) :
    sumOf (as.map fun a => g.part (key a) 1) = as.countP fun a => g.holds (key a) := by
  induction as with
  | nil => rfl
  | cons a as ih =>
    rw [map_cons, sumOf, ih, countP_cons, Heading.part]
    omega

theorem sumOn_bump (t : Keyed Key Nat) : sumOn g.part (t.bump k) = sumOn g.part t + g.part k 1 :=
  @sumOn_foldl _ _ _ g.part _ id (fun _ n => n + 1) 0 _ (part_congr g) (part_zero g)
    (fun k n => part_add g k n 1) [k] t

variable (entries : List Entry)

/-- A figure of the tools to which each message adds something is the sum of all that. -/
theorem sumOn_countEntries {w : Key → ToolStats Key → Nat} {d : Entry → Nat} (hw : ∀ key k, key == k → w k = w key)
    (hfresh : ∀ k, w k {} = 0) (hadd : ∀ (e : Entry) (old : ToolStats Key),
      w e.tool { total := old.total + 1, byType := old.byType.bump e.type } = w e.tool old + d e) :
    sumOn w (countEntries entries) = sumOf (entries.map d) :=
  (sumOn_foldl hw hfresh hadd entries []).trans (Nat.zero_add _)

theorem sumOn_totals : sumOn (fun _ s => s.total) (countEntries entries) = entries.length := by
  rw [sumOn_countEntries entries (fun _ _ _ => rfl) (fun _ => rfl) fun _ _ => rfl, ← countP_true]
  exact sumOf_part .all Entry.tool entries

theorem sumOn_byType : sumOn g.part (countEntries entries).byType = entries.countP fun e => g.holds e.type := by
  have hsum (s : Stats Key) : sumOn g.part s.byType = sumOn (fun _ t => sumOn g.part t.byType) s := by
    refine (@sumOn_foldl _ _ _ g.part _ Prod.fst (fun e n => n + e.2) 0 _ (part_congr g) (part_zero g)
      (fun e n => part_add g e.1 n e.2) _ []).trans ?_
    refine (Nat.zero_add _).trans ((sumOn_flatten g.part _).trans ?_)
    rw [map_map]
    rfl
  rw [hsum, ← sumOf_part]
  exact sumOn_countEntries entries (fun _ _ _ => rfl) (fun _ => rfl) fun e old => sumOn_bump g e.type old.byType

theorem sumOn_named {name : Option String} {t : Keyed Key Nat} (h : Distinct t) :
    sumOn (Heading.named name).part t = (t.get? ⟨.ofText? name⟩).getD 0 := by
  have hplain := isPlain_name name
  induction t with
  | nil => rfl
  | cons e rest ih =>
    obtain ⟨hfirst, hrest⟩ := pairwise_cons.mp h
    have hsum := ih hrest
    rw [sumOn, map_cons, sumOf, get?_cons, Heading.part, Heading.holds]
    by_cases he : e.1 == ⟨.ofText? name⟩
    · have hnone : get? ⟨.ofText? name⟩ rest = none := lookup_eq_none_iff.mpr fun other hother => by
        have hne : ¬ other.1 == e.1 := hfirst other.1 (mem_map_of_mem hother)
        rw [(hplain e.1).1.mp he, (hplain other.1).1, ← (hplain other.1).2] at hne
        simpa [bne] using hne
      rw [hnone] at hsum
      rw [if_pos he, if_pos ((hplain e.1).2.mpr ((hplain e.1).1.mp he))]
      exact congrArg (e.2 + ·) hsum
    · rw [if_neg he, if_neg (by rwa [(hplain e.1).2, ← (hplain e.1).1])]
      exact (Nat.zero_add _).trans hsum

/-- How often each type comes. -/
def tally (types : List Key) : Keyed Key Nat := types.foldl (fun t type => t.bump type) []

theorem foldl_own (own : List Entry) (s : ToolStats Key) :
    own.foldl (fun s e => { total := s.total + 1, byType := s.byType.bump e.type }) s =
      ⟨s.total + own.length, (own.map (·.type)).foldl (fun t type => t.bump type) s.byType⟩ := by
  induction own generalizing s with
  | nil => rfl
  | cons e own ih =>
    rw [foldl_cons, ih, length_cons, map_cons, foldl_cons, Nat.add_right_comm, Nat.add_assoc s.total]

theorem get?_countEntries (name : Option String) : (countEntries entries).get? ⟨.ofText? name⟩ =
    let own := entries.filter fun e => e.tool == ⟨.ofText? name⟩
    if own = [] then none else some ⟨own.length, tally (own.map (·.type))⟩ := by
  refine (@get?_foldl _ (ToolStats Key) _ _ Entry.tool
    (fun e old => ⟨old.total + 1, old.byType.bump e.type⟩) {} _ (isPlain_name name) entries []).trans ?_
  cases entries.filter fun e => e.tool == ⟨.ofText? name⟩ with
  | nil => rfl
  | cons e own =>
    refine (foldl_some own _).trans (congrArg some ((foldl_own own _).trans ?_))
    rw [length_cons, Nat.add_comm]
    rfl

variable (types : List Key)

theorem distinct_tally : Distinct (tally types) := distinct_foldl types Pairwise.nil

theorem sumOn_tally : sumOn g.part (tally types) = types.countP g.holds := by
  refine (@sumOn_foldl _ _ _ g.part _ id (fun _ n => n + 1) 0 _ (part_congr g) (part_zero g)
    (fun k n => part_add g k n 1) types []).trans ?_
  exact (Nat.zero_add _).trans (sumOf_part g id types)

theorem distinct_countEntries : Distinct (countEntries entries) := distinct_foldl entries Pairwise.nil

theorem distinct_byType (s : Stats Key) : Distinct s.byType := distinct_foldl _ Pairwise.nil

def sourceOf (m : Value) : Key := ⟨(m.part "source").toOption.getD .null⟩

/-- The type of a message. A message without a type has an unknown one. -/
def typeOf (m : Value) : Key := ⟨orElse ((m.part "message_type").toOption.getD .null) "unknown"⟩

theorem toKey_eq {v : Value} {k : Key} (h : v.toKey = .ok k) : k = ⟨v⟩ := by
  obtain ⟨_, h, hk⟩ := bind_eq_ok_iff.mp h
  obtain ⟨_, -, hv⟩ := bind_eq_ok_iff.mp h
  cases hk
  cases hv
  rfl

theorem readMessage_keys {code m : Value} {e : Entry} (h : readMessage code m = .ok e) :
    e.tool = sourceOf m ∧ e.type = typeOf m := by
  simp only [readMessage, bind_eq_ok_iff] at h
  obtain ⟨tool, htool, toolKey, htoolKey, type, htype, typeKey, htypeKey, _, -, _, -, _, -, _, -, h⟩ := h
  cases h
  rw [toKey_eq htoolKey, toKey_eq htypeKey, sourceOf, typeOf, htool, htype]
  exact ⟨rfl, rfl⟩

theorem map_keys {code : Value} {messages : List Value} {entries : List Entry}
    (h : messages.map (readMessage code) = entries.map .ok) :
    entries.map (fun e => (e.tool, e.type)) = messages.map fun m => (sourceOf m, typeOf m) := by
  induction messages generalizing entries with
  | nil =>
    obtain rfl : entries = [] := by simpa [eq_comm] using h
    rfl
  | cons m messages ih =>
    cases entries with
    | nil => cases h
    | cons e entries =>
      obtain ⟨he, hrest⟩ := cons.inj h
      obtain ⟨htool, htype⟩ := readMessage_keys he
      rw [map_cons, map_cons, htool, htype, ih hrest]

/-- A message of a tool that tells a type at most. -/
def bareMessage (tool : String) (type : Option String) : Value :=
  .object [("source", tool), ("message_type", .ofText? type), ("message", .null), ("line", .null),
    ("character", .null)]

def bareMessages : List Value :=
  [bareMessage "a" (some "error"), bareMessage "b" none, bareMessage "a" none, bareMessage "a" (some "error")]

end Analyzer.Quality

end CodeAudit

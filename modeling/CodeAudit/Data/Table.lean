import CodeAudit.Data.Value

/-! Tables: values kept under keys, in the order in which the keys came in. Most keys are names. The
laws of tables and of logs stand here, where all that keeps one finds them. -/

namespace CodeAudit

open List

variable {α : Type}

/-- A log with one more event, split at some event: that is the last one, or the last one stands
behind it. -/
theorem snoc_eq_append_cons {log before rest : List α} {e x : α} (h : log ++ [e] = before ++ x :: rest) :
    (log = before ∧ e = x ∧ rest = []) ∨ ∃ middle, rest = middle ++ [e] ∧ log = before ++ x :: middle := by
  rcases eq_nil_or_concat rest with rfl | ⟨middle, last, rfl⟩
  · obtain ⟨hlog, he⟩ := append_inj' h rfl
    exact .inl ⟨hlog, singleton_inj.mp he, rfl⟩
  · have hsplit : log ++ [e] = (before ++ x :: middle) ++ [last] := by simpa using h
    obtain ⟨hlog, he⟩ := append_inj' hsplit rfl
    exact .inr ⟨middle, by rw [concat_eq_append, he], hlog⟩

theorem forall_split_snoc {log : List α} {e : α} {P : List α → α → Prop} :
    (∀ before x rest, log ++ [e] = before ++ x :: rest → P before x) ↔
      (∀ before x rest, log = before ++ x :: rest → P before x) ∧ P log e := by
  constructor
  · exact fun h => ⟨fun before x rest heq => h before x (rest ++ [e]) (by simp [heq]), h log e [] rfl⟩
  · rintro ⟨hold, hlast⟩ before x rest heq
    rcases snoc_eq_append_cons heq with ⟨rfl, rfl, -⟩ | ⟨middle, -, hsplit⟩
    · exact hlast
    · exact hold before x middle hsplit

theorem eraseDups_snoc [BEq α] [LawfulBEq α] (as : List α) (b : α) :
    (as ++ [b]).eraseDups = as.eraseDups ++ if b ∈ as then [] else [b] := by
  rw [eraseDups_append]
  by_cases hb : b ∈ as <;> simp [removeAll, hb, eraseDups_cons]

abbrev Keyed (κ α : Type) := List (κ × α)

abbrev Table (α : Type) := Keyed String α

namespace Keyed

variable {κ α : Type} [BEq κ] (key : κ) (t : Keyed κ α)

def get? : Option α := t.lookup key

def has : Bool := (t.get? key).isSome

def put (key : κ) (v : α) : Keyed κ α → Keyed κ α
  | [] => [(key, v)]
  | (k, old) :: rest => if key == k then (k, v) :: rest else (k, old) :: put key v rest

def erase : Keyed κ α := t.filter fun e => !(key == e.1)

def keys : List κ := t.map (·.1)

def bump (t : Keyed κ Nat) : Keyed κ Nat := t.put key ((t.get? key).getD 0 + 1)

@[simp]
theorem get?_nil : get? key ([] : Keyed κ α) = none := rfl

theorem get?_cons (e : κ × α) (t : Keyed κ α) :
    get? key (e :: t) = if key == e.1 then some e.2 else get? key t := by
  obtain ⟨k, v⟩ := e
  simp only [get?, lookup_cons]
  cases h : key == k <;> simp

/-- The sum over a table of numbers that its entries have. -/
def sumOn (w : κ → α → Nat) (t : Keyed κ α) : Nat := sumOf (t.map fun e => w e.1 e.2)

theorem sumOn_put {w : κ → α → Nat} {key : κ} (hw : ∀ k, key == k → w k = w key) (v : α) (t : Keyed κ α) :
    sumOn w (t.put key v) + ((t.get? key).map (w key)).getD 0 = sumOn w t + w key v := by
  induction t with
  | nil => simp [put, sumOn, sumOf]
  | cons e rest ih =>
    rw [put, get?_cons]
    cases hk : key == e.1
    · simp only [Bool.false_eq_true, if_false, sumOn, map_cons, sumOf] at ih ⊢
      omega
    · simp only [if_true, sumOn, map_cons, sumOf, Option.map_some, Option.getD_some, hw e.1 hk]
      omega

theorem get?_put_self [ReflBEq κ] (v : α) (t : Keyed κ α) : (t.put key v).get? key = some v := by
  induction t with
  | nil => simp [put, get?_cons]
  | cons e rest ih =>
    cases h : key == e.1
    · simpa [put, h, get?_cons] using ih
    · simp [put, get?_cons, h]

theorem get?_put_of_ne [LawfulBEq κ] {key other : κ} (h : other ≠ key) (v : α) (t : Keyed κ α) :
    (t.put key v).get? other = t.get? other := by
  induction t with
  | nil => simp [put, get?_cons, h]
  | cons e rest ih =>
    by_cases hk : key = e.1
    · simp [put, get?_cons, ← hk, h]
    · simp [put, hk, get?_cons, ih]

theorem get?_put [LawfulBEq κ] (key other : κ) (v : α) (t : Keyed κ α) :
    (t.put key v).get? other = if other == key then some v else t.get? other := by
  by_cases h : other = key
  · subst h
    simp [get?_put_self]
  · simp [get?_put_of_ne h, h]

theorem get?_erase [LawfulBEq κ] (key other : κ) (t : Keyed κ α) :
    (t.erase key).get? other = if other == key then none else t.get? other := by
  induction t with
  | nil => simp [erase]
  | cons e rest ih =>
    by_cases hk : key = e.1
    · have he : erase key (e :: rest) = erase key rest := by simp [erase, hk]
      rw [he, ih, get?_cons]
      by_cases ho : other = key
      · simp [ho]
      · simp [ho, ← hk]
    · have he : erase key (e :: rest) = e :: erase key rest := by simp [erase, hk]
      rw [he, get?_cons, get?_cons, ih]
      by_cases ho : other = e.1
      · have hne : e.1 ≠ key := fun h => hk h.symm
        simp [ho, hne]
      · simp [ho]

variable {t : Keyed κ α} {key : κ}

theorem mem_of_get? [LawfulBEq κ] {v : α} (h : t.get? key = some v) : (key, v) ∈ t := by
  obtain ⟨before, after, ht, _⟩ := lookup_eq_some_iff.mp h
  simp [ht]

theorem get?_of_mem [LawfulBEq κ] {e : κ × α} (h : t.keys.Nodup) (he : e ∈ t) : t.get? e.1 = some e.2 := by
  obtain ⟨before, after, rfl⟩ := append_of_mem he
  rw [keys, map_append, nodup_append] at h
  refine lookup_eq_some_iff.mpr ⟨before, after, rfl, fun other ho => ?_⟩
  simpa using fun heq : e.1 = other.1 => h.2.2 _ (mem_map_of_mem ho) e.1 (by simp) heq.symm

theorem put_of_not_mem [LawfulBEq κ] (h : key ∉ t.keys) (v : α) : t.put key v = t ++ [(key, v)] := by
  induction t with
  | nil => rfl
  | cons e rest ih =>
    rw [keys, map_cons, mem_cons, not_or] at h
    rw [put, if_neg (by simpa using h.1), ih h.2, cons_append]

theorem has_iff_mem_keys [LawfulBEq κ] : t.has key = true ↔ key ∈ t.keys := by
  rw [has, get?, Option.isSome_iff_ne_none, ne_eq, lookup_eq_none_iff]
  simp [keys]

theorem has_iff : t.has key = true ↔ ∃ v, t.get? key = some v := Option.isSome_iff_exists

end Keyed

namespace Entries

theorem put_eq_put (key : String) (v : Value) (entries : Entries) : entries.put key v = Keyed.put key v entries := by
  induction entries with
  | nil => rfl
  | cons e rest ih =>
    by_cases hk : e.1 = key
    · simp [put, Keyed.put, hk]
    · simp [put, Keyed.put, hk, ih, show ¬ key = e.1 from fun h => hk h.symm]

theorem lookup_put_of_ne {key other : String} (h : other ≠ key) (v : Value) (entries : Entries) :
    (entries.put key v).lookup other = entries.lookup other := by
  rw [put_eq_put]
  exact Keyed.get?_put_of_ne h v entries

end Entries

def Table.toValue {α : Type} (render : α → Value) (t : Table α) : Value := .object (t.map fun (k, v) => (k, render v))

/-! Keys of any kind. Numbers that count the same are the same key; lists and objects are no
keys. -/

structure Key where
  value : Value

instance instBEqKey : BEq Key := ⟨fun a b => a.value.equals b.value⟩

def Value.toKey (v : Value) : Outcome Key := do return ⟨← v.asKey⟩

def Key.missing (k : Key) : Fault :=
  match k.value with
  | .text s => .missingKey s
  | v => .missingItem v.literal

class Label (κ : Type) where
  same : BEq κ
  shown : κ → String
  isBlank : κ → Bool
  isText : κ → String → Bool

instance (priority := low) instBEqOfLabel {κ : Type} [Label κ] : BEq κ := Label.same

instance instLabelString : Label String where
  same := inferInstance
  shown := id
  isBlank s := s == ""
  isText a b := a == b

instance instLabelKey : Label Key where
  same := inferInstance
  shown k := k.value.display
  isBlank k := !k.value.truthy
  isText k s := k.value.equals s

def Keyed.document {α : Type} (render : α → Value) (t : Keyed Key α) : Value :=
  .ofPairs (t.map fun (k, v) => (k.value, render v))

end CodeAudit

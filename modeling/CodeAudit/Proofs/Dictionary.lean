import Mathlib.Data.List.Induction
import Mathlib.Data.List.Nodup
import CodeAudit.Data.Table

/-! Entries without a repeated key, and how some of them are put over others. -/

namespace CodeAudit.Entries

open List

def Distinct (entries : Entries) : Prop := (entries.map Prod.fst).Nodup

theorem object_kept (entries : Entries) :
    (if (Value.object entries).truthy then Value.object entries else .object []) = .object entries := by
  cases entries <;> rfl

theorem lookup_put (key other : String) (v : Value) (entries : Entries) :
    (entries.put key v).lookup other = if other == key then some v else entries.lookup other := by
  rw [put_eq_put]
  exact Keyed.get?_put key other v entries

theorem keys_put (key : String) (v : Value) (entries : Entries) : (entries.put key v).map Prod.fst =
      if key ∈ entries.map Prod.fst then entries.map Prod.fst else entries.map Prod.fst ++ [key] := by
  induction entries with
  | nil => simp [put]
  | cons e rest ih =>
    by_cases hk : e.1 = key
    · simp [put, hk]
    · have hk' : ¬ key = e.1 := fun h => hk h.symm
      rw [put, if_neg hk, map_cons, ih, map_cons]
      by_cases hm : key ∈ rest.map Prod.fst
      · simp [hm]
      · simp [hm, hk']

variable {entries old : Entries} {key : String} {e : String × Value}

theorem put_new (h : key ∉ entries.map Prod.fst) (v : Value) : entries.put key v = entries ++ [(key, v)] := by
  rw [put_eq_put]
  exact Keyed.put_of_not_mem h v

theorem lookup_eq_none (h : key ∉ entries.map Prod.fst) : entries.lookup key = none := by
  rw [lookup_eq_none_iff]
  intro e he
  have hne : key ≠ e.1 := fun hk => h (hk ▸ mem_map_of_mem he)
  simpa using hne

theorem Distinct.put (h : Distinct entries) (key : String) (v : Value) : Distinct (entries.put key v) := by
  unfold Distinct
  rw [keys_put]
  split
  next => exact h
  next hnew =>
    refine nodup_append.mpr ⟨h, nodup_singleton key, ?_⟩
    intro other ho k hk he
    rw [he, mem_singleton.mp hk] at ho
    exact hnew ho

theorem Distinct.merge (h : Distinct old) (new : Entries) : Distinct (old.merge new) := by
  induction new generalizing old with
  | nil => exact h
  | cons e rest ih => exact ih (h.put e.1 e.2)

theorem mem_put {key : String} {v : Value} (h : e ∈ entries.put key v) : e = (key, v) ∨ e ∈ entries := by
  induction entries with
  | nil => exact .inl (mem_singleton.mp h)
  | cons first rest ih =>
    rw [put] at h
    split at h
    next hk =>
      rcases mem_cons.mp h with rfl | hm
      · exact .inl (by rw [hk])
      · exact .inr (mem_cons_of_mem _ hm)
    next =>
      rcases mem_cons.mp h with rfl | hm
      · exact .inr mem_cons_self
      · exact (ih hm).imp_right (mem_cons_of_mem _)

variable {new : Entries}

theorem mem_merge (h : e ∈ old.merge new) : e ∈ old ∨ e ∈ new := by
  induction new generalizing old with
  | nil => exact .inl h
  | cons first rest ih =>
    rcases @ih (old.put first.1 first.2) h with hm | hm
    · rcases mem_put hm with rfl | hm
      · exact .inr mem_cons_self
      · exact .inl hm
    · exact .inr (mem_cons_of_mem _ hm)

theorem ofList_append (old new : Entries) : ofList (old ++ new) = merge (ofList old) new := by simp [ofList, merge]

theorem ofList_of_distinct (h : Distinct entries) : ofList entries = entries := by
  induction entries using reverseRecOn with
  | nil => rfl
  | append_singleton rest e ih =>
    have hd : (rest.map Prod.fst).Nodup ∧ e.1 ∉ rest.map Prod.fst := by
      rw [Distinct, map_append, map_singleton, nodup_append] at h
      refine ⟨h.1, ?_⟩
      intro hm
      exact h.2.2 _ hm _ (mem_singleton_self _) rfl
    rw [ofList_append, ih hd.1]
    exact put_new hd.2 e.2

theorem lookup_merge (h : Distinct new) (old : Entries) (key : String) :
    (old.merge new).lookup key = (new.lookup key).or (old.lookup key) := by
  induction new generalizing old with
  | nil => rfl
  | cons e rest ih =>
    have hd := nodup_cons.mp h
    have hcons : (e :: rest).lookup key = if key == e.1 then some e.2 else rest.lookup key :=
      Keyed.get?_cons key e rest
    change ((old.put e.1 e.2).merge rest).lookup key = _
    rw [ih hd.2, lookup_put, hcons]
    by_cases hk : key = e.1
    · subst hk
      rw [lookup_eq_none hd.1]
      simp
    · simp [hk]

theorem lookup_merge_of_notMem (h : key ∉ new.map Prod.fst) (old : Entries) :
    (old.merge new).lookup key = old.lookup key := by
  induction new generalizing old with
  | nil => rfl
  | cons e rest ih =>
    simp only [map_cons, mem_cons, not_or] at h
    change ((old.put e.1 e.2).merge rest).lookup key = _
    rw [ih h.2, lookup_put, if_neg (by simpa using h.1)]

theorem lookup_foldl_merge {first : Entries} {later : List Entries} (h : ∀ d ∈ later, Distinct d) (key : String) :
    (later.foldl merge first).lookup key = (later.reverse ++ [first]).findSome? (·.lookup key) := by
  induction later using reverseRecOn with
  | nil => simp
  | append_singleton rest d ih =>
    have hd : Distinct d := h d (by simp)
    have hrest := ih fun x hx => h x (by simp [hx])
    rw [foldl_append, foldl_cons, foldl_nil, lookup_merge hd, hrest, reverse_append,
      reverse_singleton, singleton_append, cons_append, findSome?_cons]
    cases d.lookup key <;> rfl

end CodeAudit.Entries

namespace CodeAudit.Value

def pairOf (e : String × Value) : Value × Value := (.text e.1, e.2)

variable (entries : Entries)

theorem putPair_pairOf (key : String) (v : Value) (entries : Entries) :
    putPair (.text key) v (entries.map pairOf) = (entries.put key v).map pairOf := by
  induction entries with
  | nil => rfl
  | cons e rest ih =>
    by_cases hk : e.1 = key
    · simp [putPair, pairOf, equals, Entries.put, hk]
    · simp only [List.map_cons, pairOf, putPair, equals, beq_iff_eq, hk, if_false, Entries.put]
      exact congrArg _ ih

theorem ofPairs_map_pairOf : ofPairs (entries.map pairOf) = .object (Entries.ofList entries) := by
  have hfold (old : Entries) : (entries.map pairOf).foldl (fun acc e => putPair e.1 e.2 acc)
      (old.map pairOf) = (old.merge entries).map pairOf := by
    induction entries generalizing old with
    | nil => rfl
    | cons e rest ih =>
      rw [List.map_cons, List.foldl_cons, pairOf, putPair_pairOf, ih]
      rfl
  have hback (d : Entries) : (d.map pairOf).mapM textKey? = some d := by
    induction d with
    | nil => rfl
    | cons e rest ih => simp [pairOf, textKey?, ih]
  have h := hfold []
  simp only [List.map_nil] at h
  simp only [ofPairs, h, hback]
  rfl

theorem mergeInto_object (old new : Entries) :
    (Value.object old).mergeInto (.object new) = .ok (.object (Entries.ofList (old ++ new))) := by
  have h := ofPairs_map_pairOf (old ++ new)
  rw [List.map_append] at h
  exact congrArg Except.ok h

/-! Reading and changing an object. -/

theorem member_object {entries : Entries} {key : String} {v : Value} (h : entries.lookup key = some v) :
    (Value.object entries).member key = .ok v := by
  simp [member, h]

theorem entries_object : (Value.object entries).entries = .ok entries := by
  refine mapM_eq_ok_iff.mpr ?_
  rw [List.map_map]
  rfl

theorem find?_items (name : String) (entries : Entries) :
    ((entries.map pairOf).find? fun e => (Value.text name).equals e.1).map Prod.snd = entries.lookup name := by
  induction entries with
  | nil => rfl
  | cons e rest ih =>
    have hcons : (e :: rest).lookup name = if name == e.1 then some e.2 else rest.lookup name :=
      Keyed.get?_cons name e rest
    rw [hcons, ← ih]
    by_cases hk : name = e.1 <;> simp [pairOf, equals, hk]

theorem fetchAt_object (name : String) (default : Value) :
    (Value.object entries).fetchAt (.text name) default = .ok ((entries.lookup name).getD default) := by
  rw [← find?_items name entries]
  rfl

theorem add_one (sign : String) (n : Nat) : arith sign Num.add (.nat n) (.int 1) = .ok (.nat (n + 1)) := rfl

end CodeAudit.Value

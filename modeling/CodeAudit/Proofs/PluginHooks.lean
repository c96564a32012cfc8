import Mathlib.Data.List.Induction
import Mathlib.Data.List.Nodup
import CodeAudit.Plugin

/-! Hooks of plugins under every run of orders, whichever calls of them fail. -/

namespace CodeAudit.Plugin

open Keyed List

/-! Logs of hooks. -/

namespace Hook

def id : Hook → Nat
  | started id _ | cleaned id _ => id

def settle (id : Nat) (ready : Bool) : Hook → Bool
  | started i ok => if i = id ∧ ok then true else ready
  | cleaned i ok => if i = id ∧ ok then false else ready

end Hook

def isReady (id : Nat) (hooks : List Hook) : Bool := hooks.foldl (Hook.settle id) false

def Paired (hooks : List Hook) : Prop :=
  ∀ before k rest, hooks = before ++ k :: rest → ∀ id ok, k = .cleaned id ok → isReady id before = true

theorem isReady_snoc (id : Nat) (hooks : List Hook) (k : Hook) :
    isReady id (hooks ++ [k]) = k.settle id (isReady id hooks) := by
  simp [isReady]

variable {new : List Hook} {hooks : List Hook} {id : Nat}

theorem isReady_append (hstarted : .started id true ∉ new)
    (hcleaned : .cleaned id true ∉ new) : isReady id (hooks ++ new) = isReady id hooks := by
  induction new using reverseRecOn with
  | nil => rw [append_nil]
  | append_singleton new k ih =>
    rw [mem_append, not_or, mem_singleton] at hstarted hcleaned
    rw [← append_assoc, isReady_snoc, ih hstarted.1 hcleaned.1]
    cases k with
    | started i ok => exact if_neg fun ⟨hi, hok⟩ => hstarted.2 (by rw [hi, hok])
    | cleaned i ok => exact if_neg fun ⟨hi, hok⟩ => hcleaned.2 (by rw [hi, hok])

theorem isReady_append_of_ne (h : id ∉ new.map Hook.id) : isReady id (hooks ++ new) = isReady id hooks :=
  isReady_append (fun hk => h (mem_map_of_mem hk)) fun hk => h (mem_map_of_mem hk)

theorem isReady_append_of_mem (hnew : (new.map Hook.id).Nodup) {k : Hook} (hk : k ∈ new) :
    isReady k.id (hooks ++ new) = k.settle k.id (isReady k.id hooks) := by
  obtain ⟨first, rest, rfl⟩ := append_of_mem hk
  rw [map_append, map_cons, nodup_middle, nodup_cons, mem_append, not_or] at hnew
  rw [← singleton_append, ← append_assoc, ← append_assoc, isReady_append_of_ne hnew.1.2, isReady_snoc,
    isReady_append_of_ne hnew.1.1]

theorem paired_snoc {k : Hook} :
    Paired (hooks ++ [k]) ↔ Paired hooks ∧ ∀ id ok, k = .cleaned id ok → isReady id hooks := forall_split_snoc

theorem paired_append (hnew : (new.map Hook.id).Nodup) :
    Paired (hooks ++ new) ↔ Paired hooks ∧ ∀ id ok, .cleaned id ok ∈ new → isReady id hooks := by
  induction new using reverseRecOn with
  | nil => simp
  | append_singleton new k ih =>
    rw [map_append, map_singleton, ← concat_eq_append, nodup_concat] at hnew
    rw [← append_assoc, paired_snoc, ih hnew.2, and_assoc]
    refine and_congr_right fun _ =>
      ⟨fun ⟨hold, hlast⟩ id ok hmem => ?_, fun h => ⟨fun id ok hmem => h id ok (by simp [hmem]), ?_⟩⟩
    · rcases mem_append.mp hmem with hmem | hmem
      · exact hold id ok hmem
      · obtain rfl := mem_singleton.mp hmem
        exact (isReady_append_of_ne hnew.1).symm.trans (hlast _ _ rfl)
    · rintro id ok rfl
      exact (isReady_append_of_ne hnew.1).trans (h id ok (by simp))

inductive Order where
  | register (p : Hosted String)
  | unregister (name : String)
  | cleanup

def Order.Fits (named : Nat → String) (o : Order) : Prop := ∀ p, o = .register p → p.name = named p.id

def Order.touches (name : String) : Order → Bool
  | .register _ => false
  | .unregister other => other == name
  | .cleanup => true

namespace Host

def next (h : Host String) : Order → Host String
  | .register p => h.register p
  | .unregister name => h.unregister name
  | .cleanup => h.cleanup

def cleanings : Keyed String (Hosted String) → Nat → List Hook
  | [], _ => []
  | e :: rest, n => .cleaned e.2.id (!e.2.failsCleanup n) :: cleanings rest (n + 1)

def calls (h : Host String) : Order → List Hook
  | .register p => if h.plugins.has p.name then [] else [.started p.id (!p.failsStart h.hooks.length)]
  | .unregister name => (h.plugins.get? name).toList.map fun p => .cleaned p.id (!p.failsCleanup h.hooks.length)
  | .cleanup => cleanings h.plugins h.hooks.length

def ids (h : Host String) : List Nat := h.plugins.map (·.2.id)

theorem cleanup_eq (h : Host String) : h.cleanup = { h with hooks := h.hooks ++ h.calls .cleanup } := by
  have hfold (plugins : Keyed String (Hosted String)) (h : Host String) :
      plugins.foldl (fun h e => h.clean e.2) h = { h with hooks := h.hooks ++ cleanings plugins h.hooks.length } := by
    induction plugins generalizing h with
    | nil => simp [cleanings]
    | cons e rest ih =>
      rw [foldl_cons, ih]
      simp [clean, cleanings]
  exact hfold h.plugins h

theorem hooks_next (h : Host String) (o : Order) : (h.next o).hooks = h.hooks ++ h.calls o := by
  cases o with
  | register p =>
    simp only [next, register, calls]
    split
    · simp
    · split <;> rfl
  | unregister name =>
    simp only [next, unregister, calls]
    split
    next hget => simp [hget]
    next p hget => split <;> simp [hget, clean]
  | cleanup => rw [next, cleanup_eq]

variable (plugins : Keyed String (Hosted String))

theorem map_id_cleanings (n : Nat) : (cleanings plugins n).map Hook.id = plugins.map (·.2.id) := by
  induction plugins generalizing n with
  | nil => rfl
  | cons e rest ih => rw [cleanings, map_cons, ih]; rfl

theorem exists_mem_cleanings {plugins : Keyed String (Hosted String)} {n id : Nat} :
    (∃ ok, .cleaned id ok ∈ cleanings plugins n) ↔ id ∈ plugins.map (·.2.id) := by
  induction plugins generalizing n with
  | nil => simp [cleanings]
  | cons e rest ih => simp [cleanings, exists_or, ih]

structure Known (named : Nat → String) (h : Host String) : Prop where
  names : ∀ e ∈ h.plugins, e.1 = named e.2.id
  distinct : h.plugins.keys.Nodup

variable {named : Nat → String} {h : Host String} {o : Order} {id : Nat}

variable (hk : Known named h)

include hk

theorem Known.mem_ids : id ∈ h.ids ↔ ∃ p, h.plugins.get? (named id) = some p ∧ p.id = id := by
  constructor
  · intro hid
    obtain ⟨e, he, rfl⟩ := mem_map.mp hid
    exact ⟨e.2, hk.names e he ▸ get?_of_mem hk.distinct he, rfl⟩
  · rintro ⟨p, hp, rfl⟩
    exact mem_map.mpr ⟨_, mem_of_get? hp, rfl⟩

theorem Known.id_of_get? {name : String} {p : Hosted String} (hp : h.plugins.get? name = some p) :
    name = named p.id ∧ p.id ∈ h.ids := ⟨hk.names _ (mem_of_get? hp), mem_map.mpr ⟨_, mem_of_get? hp, rfl⟩⟩

theorem Known.nodup_calls (o : Order) : ((h.calls o).map Hook.id).Nodup := by
  cases o with
  | register p =>
    rw [calls]
    split <;> simp
  | unregister name =>
    rw [calls]
    cases h.plugins.get? name <;> simp
  | cleanup =>
    rw [calls, map_id_cleanings]
    refine List.Nodup.of_map named ?_
    rw [map_map]
    exact (map_congr_left fun e he => (hk.names e he).symm) ▸ hk.distinct

theorem Known.exists_cleaned_iff (o : Order) :
    (∃ ok, .cleaned id ok ∈ h.calls o) ↔ id ∈ h.ids ∧ o.touches (named id) := by
  cases o with
  | register p =>
    rw [calls]
    split <;> simp [Order.touches]
  | unregister name =>
    have hcalled : (∃ ok, .cleaned id ok ∈ h.calls (.unregister name)) ↔
        ∃ p, h.plugins.get? name = some p ∧ p.id = id := by
      cases hget : h.plugins.get? name <;> simp [calls, hget, eq_comm]
    rw [hcalled, Order.touches, beq_iff_eq]
    constructor
    · rintro ⟨p, hp, rfl⟩
      exact (hk.id_of_get? hp).symm
    · rintro ⟨hid, rfl⟩
      exact hk.mem_ids.mp hid
  | cleanup =>
    rw [calls, exists_mem_cleanings]
    exact (and_iff_left rfl).symm

omit hk in
theorem not_started_cleanings (n : Nat) (ok : Bool) : .started id ok ∉ cleanings plugins n := by
  induction plugins generalizing n with
  | nil => simp [cleanings]
  | cons e rest ih => simp [cleanings, ih]

theorem Known.started_new (ho : o.Fits named) {ok : Bool} (hs : .started id ok ∈ h.calls o) : id ∉ h.ids := by
  cases o with
  | register p =>
    rw [calls] at hs
    split at hs
    next => cases hs
    next hnew =>
      obtain ⟨rfl, -⟩ := Hook.started.inj (mem_singleton.mp hs)
      intro hid
      obtain ⟨q, hq, -⟩ := hk.mem_ids.mp hid
      exact hnew (has_iff.mpr ⟨q, ho p rfl ▸ hq⟩)
  | unregister name => simp [calls] at hs
  | cleanup => exact absurd hs (not_started_cleanings _ _ _)

omit hk in
theorem plugins_next_cases (h : Host String) (o : Order) :
    ((h.next o).plugins = h.plugins ∧ (∀ id, .started id true ∉ h.calls o) ∧
      ∀ id, .cleaned id true ∈ h.calls o → o = .cleanup) ∨
    (∃ p, o = .register p ∧ p.name ∉ h.plugins.keys ∧ h.calls o = [.started p.id true] ∧
      (h.next o).plugins = h.plugins ++ [(p.name, p)]) ∨
    ∃ name p, o = .unregister name ∧ h.plugins.get? name = some p ∧ h.calls o = [.cleaned p.id true] ∧
      (h.next o).plugins = h.plugins.erase name := by
  cases o with
  | register p =>
    by_cases hhas : h.plugins.has p.name
    · exact .inl (by simp [next, register, calls, hhas])
    · cases hfail : p.failsStart h.hooks.length with
      | true => exact .inl (by simp [next, register, calls, hhas, hfail])
      | false =>
        have hnew : p.name ∉ h.plugins.keys := mt has_iff_mem_keys.mpr hhas
        refine .inr (.inl ⟨p, rfl, hnew, by simp [calls, hhas, hfail], ?_⟩)
        simp [next, register, hhas, hfail, put_of_not_mem hnew]
  | unregister name =>
    cases hget : h.plugins.get? name with
    | none => exact .inl (by simp [next, unregister, calls, hget])
    | some p =>
      cases hfail : p.failsCleanup h.hooks.length with
      | true => exact .inl (by simp [next, unregister, clean, calls, hget, hfail])
      | false =>
        refine .inr (.inr ⟨name, p, rfl, hget, by simp [calls, hget, hfail], ?_⟩)
        simp [next, unregister, hget, hfail]
  | cleanup => exact .inl ⟨by rw [next, cleanup_eq], fun id => not_started_cleanings _ _ _, fun _ _ => rfl⟩

theorem Known.next (ho : o.Fits named) : Known named (h.next o) := by
  rcases plugins_next_cases h o with ⟨heq, -⟩ | ⟨p, rfl, hnew, -, heq⟩ | ⟨name, p, rfl, -, -, heq⟩
  · exact ⟨heq ▸ hk.names, heq ▸ hk.distinct⟩
  · refine ⟨fun e he => ?_, ?_⟩
    · rw [heq] at he
      rcases mem_append.mp he with he | he
      · exact hk.names e he
      · rw [mem_singleton.mp he]
        exact ho p rfl
    · rw [heq, Keyed.keys, map_append, nodup_append]
      refine ⟨hk.distinct, nodup_singleton _, fun key hkey other hother heq => hnew ?_⟩
      obtain rfl : other = p.name := mem_singleton.mp hother
      exact heq ▸ hkey
  · exact ⟨fun e he => hk.names e (mem_of_mem_filter (heq ▸ he)),
      heq ▸ hk.distinct.sublist (filter_sublist.map _)⟩

theorem Known.mem_ids_next (o : Order) : id ∈ (h.next o).ids ↔
    .started id true ∈ h.calls o ∨ id ∈ h.ids ∧ (.cleaned id true ∈ h.calls o → o = .cleanup) := by
  rcases plugins_next_cases h o with ⟨heq, hstarted, hcleaned⟩ | ⟨p, rfl, -, hcalls, heq⟩ | ⟨name, p, rfl, hget,
    hcalls, heq⟩
  · rw [ids, heq, or_iff_right (hstarted id)]
    exact (and_iff_left (hcleaned id)).symm
  · rw [ids, heq, hcalls]
    simp [ids, or_comm]
  · have herased : id ∈ (h.next (.unregister name)).ids ↔ id ∈ h.ids ∧ id ≠ p.id := by
      simp only [ids, heq, erase, mem_map, mem_filter, Bool.not_eq_true', beq_eq_false_iff_ne]
      constructor
      · rintro ⟨e, ⟨he, hne⟩, rfl⟩
        refine ⟨⟨e, he, rfl⟩, fun hid => hne ?_⟩
        rw [hk.names e he, hid]
        exact (hk.id_of_get? hget).1
      · rintro ⟨⟨e, he, rfl⟩, hne⟩
        refine ⟨e, ⟨he, ?_⟩, rfl⟩
        rintro rfl
        rw [get?_of_mem hk.distinct he] at hget
        exact hne (congrArg Hosted.id (Option.some.inj hget))
    rw [herased, hcalls]
    simp

def Stale (h : Host String) (id : Nat) : Prop := id ∈ h.ids ∧ isReady id h.hooks = false

theorem Known.stale_next (ho : o.Fits named) (halone : ∀ id, h.Stale id → o.touches (named id) = false) (id : Nat) :
    (h.next o).Stale id ↔ h.Stale id ∨ o = .cleanup ∧ .cleaned id true ∈ h.calls .cleanup := by
  have hready {k : Hook} (hcall : k ∈ h.calls o) :
      isReady k.id (h.hooks ++ h.calls o) = k.settle k.id (isReady k.id h.hooks) :=
    isReady_append_of_mem (hk.nodup_calls o) hcall
  rw [Stale, hooks_next, hk.mem_ids_next]
  constructor
  · rintro ⟨hid, hnot⟩
    have hstarted : .started id true ∉ h.calls o := fun hcall => by
      rw [show isReady id (h.hooks ++ h.calls o) from (hready hcall).trans (if_pos ⟨rfl, rfl⟩)] at hnot
      cases hnot
    obtain ⟨hid, hcleanup⟩ := hid.resolve_left hstarted
    by_cases hcleaned : .cleaned id true ∈ h.calls o
    · obtain rfl := hcleanup hcleaned
      exact .inr ⟨rfl, hcleaned⟩
    · rw [isReady_append hstarted hcleaned] at hnot
      exact .inl ⟨hid, hnot⟩
  · rintro (hstale | ⟨rfl, hcleaned⟩)
    · have hcleaned (ok : Bool) : .cleaned id ok ∉ h.calls o := fun hcall => by
        have htouched := (hk.exists_cleaned_iff o).mp ⟨ok, hcall⟩
        rw [halone id hstale] at htouched
        cases htouched.2
      have hstarted : .started id true ∉ h.calls o := fun hcall => hk.started_new ho hcall hstale.1
      rw [isReady_append hstarted (hcleaned true)]
      exact ⟨.inr ⟨hstale.1, fun hcall => absurd hcall (hcleaned true)⟩, hstale.2⟩
    · have hid := ((hk.exists_cleaned_iff .cleanup).mp ⟨true, hcleaned⟩).1
      exact ⟨.inr ⟨hid, fun _ => rfl⟩, (hready hcleaned).trans (if_pos ⟨rfl, rfl⟩)⟩

omit hk

variable (orders : List Order)

def after : Host String := orders.foldl next {}

theorem after_snoc (o : Order) : after (orders ++ [o]) = (after orders).next o := by
  simp [after]

def Spent (id : Nat) : Prop :=
  ∃ before rest, orders = before ++ .cleanup :: rest ∧ .cleaned id true ∈ (after before).calls .cleanup

/-- No plugin is touched again after a clean-up of all that went well for it. -/
def LeftAlone (named : Nat → String) (orders : List Order) : Prop :=
  ∀ before o rest, orders = before ++ o :: rest → ∀ id, Spent before id → o.touches (named id) = false

variable {orders : List Order}

theorem spent_snoc {o : Order} : Spent (orders ++ [o]) id ↔
    Spent orders id ∨ o = .cleanup ∧ .cleaned id true ∈ (after orders).calls .cleanup := by
  constructor
  · rintro ⟨before, rest, heq, hcleaned⟩
    rcases snoc_eq_append_cons heq with ⟨rfl, rfl, -⟩ | ⟨middle, -, rfl⟩
    · exact .inr ⟨rfl, hcleaned⟩
    · exact .inl ⟨before, middle, rfl, hcleaned⟩
  · rintro (⟨before, rest, rfl, hcleaned⟩ | ⟨rfl, hcleaned⟩)
    · exact ⟨before, rest ++ [o], by simp, hcleaned⟩
    · exact ⟨orders, [], rfl, hcleaned⟩

theorem leftAlone_snoc {o : Order} : LeftAlone named (orders ++ [o]) ↔
    LeftAlone named orders ∧ ∀ id, Spent orders id → o.touches (named id) = false := forall_split_snoc

theorem known_after (hfits : ∀ o ∈ orders, o.Fits named) : Known named (after orders) := by
  induction orders using reverseRecOn with
  | nil => exact ⟨by simp [after], nodup_nil⟩
  | append_singleton orders o ih =>
    rw [after_snoc]
    exact (ih fun p hp => hfits p (by simp [hp])).next (hfits o (by simp))

theorem spent_iff_stale (hfits : ∀ o ∈ orders, o.Fits named) (halone : LeftAlone named orders) (id : Nat) :
    Spent orders id ↔ (after orders).Stale id := by
  induction orders using reverseRecOn generalizing id with
  | nil => simp [Spent, Stale, after, ids]
  | append_singleton orders o ih =>
    have hold : ∀ p ∈ orders, p.Fits named := fun p hp => hfits p (by simp [hp])
    obtain ⟨hbefore, hlast⟩ := leftAlone_snoc.mp halone
    have hsame := ih hold hbefore
    rw [spent_snoc, after_snoc,
      (known_after hold).stale_next (hfits o (by simp)) fun id h => hlast id ((hsame id).mpr h), hsame]

/-- For every run of orders, whichever hooks fail: only plugins that are ready are ever cleaned up
if and only if no order touches a plugin after a clean-up of all went well for it. -/
theorem cleanups_paired_iff_left_alone {orders : List Order} (hfits : ∀ o ∈ orders, o.Fits named) :
    Paired (after orders).hooks ↔ LeftAlone named orders := by
  induction orders using List.reverseRecOn with
  | nil => simp [Paired, LeftAlone, after]
  | append_singleton orders o ih =>
    have hold : ∀ p ∈ orders, p.Fits named := fun p hp => hfits p (by simp [hp])
    have hk := known_after hold
    rw [after_snoc, hooks_next, paired_append (hk.nodup_calls o), ih hold, leftAlone_snoc]
    refine and_congr_right fun halone => ?_
    constructor
    · intro hready id hspent
      obtain ⟨hid, hnot⟩ := (spent_iff_stale hold halone id).mp hspent
      refine Bool.eq_false_iff.mpr fun htouched => ?_
      obtain ⟨ok, hcall⟩ := (hk.exists_cleaned_iff o).mpr ⟨hid, htouched⟩
      rw [hready id ok hcall] at hnot
      cases hnot
    · intro huntouched id ok hcall
      obtain ⟨hid, htouched⟩ := (hk.exists_cleaned_iff o).mp ⟨ok, hcall⟩
      refine Bool.of_not_eq_false fun hnot => ?_
      rw [huntouched id ((spent_iff_stale hold halone id).mpr ⟨hid, hnot⟩)] at htouched
      cases htouched

theorem cleanups_paired_iff_left_alone_flaky :
    let p : Hosted String := { name := "a", failsStart := (· == 0), failsCleanup := (· == 2) }
    let orders : List Order := [.register p, .register p, .cleanup, .unregister "a", .cleanup]
    (∀ o ∈ orders, o.Fits fun _ => "a") ∧ LeftAlone (fun _ => "a") orders := by
  intro p orders
  have hfits : ∀ o ∈ orders, o.Fits fun _ => "a" := by simp [orders, Order.Fits, p]
  refine ⟨hfits, (cleanups_paired_iff_left_alone hfits).mp ?_⟩
  rw [show (after orders).hooks = [] ++ [.started 0 false] ++ [.started 0 true] ++
    [.cleaned 0 false] ++ [.cleaned 0 true]
    from rfl]
  simp only [paired_snoc]
  simp [Paired, isReady, Hook.settle]

/-- An extension can be cleaned up twice after it was made ready once. -/
theorem cleaned_up_twice :
    ∃ orders : List Order, (∀ o ∈ orders, o.Fits fun _ => "a") ∧ ¬ Paired (after orders).hooks := by
  refine ⟨[.register { name := "a" }, .cleanup, .cleanup], by simp [Order.Fits], fun h => ?_⟩
  have hready := h [.started 0 true, .cleaned 0 true] _ [] rfl 0 true rfl
  simp [isReady, Hook.settle] at hready

end Host

end CodeAudit.Plugin

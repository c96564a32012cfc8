import Mathlib.Data.List.Induction
import Mathlib.Logic.Relation
import CodeAudit.Access.Role

/-! Runs of changes to the table of roles. What a change can do is said once, through the roles that
stand under each name; everything else follows from that. -/

namespace CodeAudit.Access

open List Roles Keyed

inductive Change where
  | add (name description : String) (permissions : List Permission) (parent : Option String)
  | remove (name : String)
  | update (name : String) (permissions : List Permission)

namespace Change

variable (roles : Roles String)

def apply : Change → Except RoleError (Roles String)
  | .add name description permissions parent => roles.add name description permissions parent
  | .remove name => roles.remove name
  | .update name permissions => roles.update name permissions

def perform (c : Change) : Except RoleError Unit × Roles String :=
  match c.apply roles with
  | .ok next => (.ok (), next)
  | .error e => (.error e, roles)

/-- A new role wants a free name and a parent that exists; one that is taken away must exist and be
nobody's parent; one that is given new permissions must exist. -/
def Refused : Change → Prop
  | .add name _ _ parent => roles.has name = true ∨ ∃ p, parent = some p ∧ p ≠ "" ∧ roles.has p = false
  | .remove name => roles.has name = false ∨ ∃ k r, (k, r) ∈ roles ∧ r.parent = some name
  | .update name _ => roles.has name = false

def Leaves (c : Change) (k : String) : Prop :=
  match c with
  | .add name _ _ _ => k = name ∨ roles.has k = true
  | .remove name => k ≠ name ∧ roles.has k = true
  | .update _ _ => roles.has k = true

end Change

variable (changes : List Change)

def rolesAfter : Roles String := changes.foldl (fun roles c => (c.perform roles).2) Roles.standard

def ParentOf (roles : Roles String) (child parent : String) : Prop :=
  ∃ r, roles.get? child = some r ∧ r.parent = some parent ∧ parent ≠ ""

variable {roles next : Roles String}

theorem parentOf_some (roles : Roles String) {p : String} (hp : p ≠ "") :
    roles.parentOf (some p) = match roles.get? p with
      | some r => .ok (some r)
      | none => .error (.noParent p) := by
  have hf : (some p).filter (fun p => !Label.isBlank p) = some p := by simp [Label.isBlank, hp]
  simp only [parentOf, hf]
  rfl

variable {name : String} {parent : Option String}

theorem inheritance_ok {inherited : List Permission} (h : roles.inheritance name parent = .ok inherited) :
    roles.get? name = none ∧ ∀ p, parent = some p → p ≠ "" →
      ∃ q, roles.get? p = some q ∧ q.permissions = inherited := by
  unfold inheritance at h
  split_ifs at h with hhas
  refine ⟨by simpa [has] using hhas, ?_⟩
  rintro p rfl hp
  rw [parentOf_some roles hp] at h
  cases hq : roles.get? p with
  | none => simp [hq] at h
  | some q =>
    simpa [hq] using h

variable {permissions : List Permission}

abbrev Sets (roles : Roles String) (name : String) (entry : Option Role) (next : Roles String) : Prop :=
  ∀ k, next.get? k = if k = name then entry else roles.get? k

abbrev Inherits (roles : Roles String) (r : Role) : Prop :=
  ∀ p, r.parent = some p → p ≠ "" → ∃ q, roles.get? p = some q ∧ q.permissions ⊆ r.permissions

theorem add_ok {description : String} (h : roles.add name description permissions parent = .ok next) :
    ∃ r : Role, r.name = name ∧ r.parent = parent ∧ roles.get? name = none ∧ Inherits roles r ∧
      Sets roles name (some r) next := by
  cases hi : roles.inheritance name parent with
  | error e => simp [add, hi] at h
  | ok inherited =>
    obtain ⟨hfree, hparent⟩ := inheritance_ok hi
    have hshown : parent.map Label.shown = parent := Option.map_id_apply
    simp only [add, hi, ok_bind, pure_eq_ok, Except.ok.injEq] at h
    subst h
    refine ⟨⟨name, description, (permissions ++ inherited).eraseDups, parent⟩, rfl, rfl, hfree, ?_, ?_⟩
    · intro p hp hne
      obtain ⟨q, hq, hperm⟩ := hparent p hp hne
      refine ⟨q, hq, ?_⟩
      intro x hx
      simp [← hperm, hx]
    · intro k
      simp [get?_put, Label.shown]

theorem remove_ok (h : roles.remove name = .ok next) :
    (∀ k r, roles.get? k = some r → r.parent ≠ some name) ∧ Sets roles name none next := by
  unfold remove at h
  split_ifs at h with hhas hany
  simp only [Except.ok.injEq] at h
  subst h
  refine ⟨?_, fun k => by simp [get?_erase]⟩
  intro k r hr hp
  apply hany
  refine any_eq_true.mpr ⟨(k, r), mem_of_get? hr, ?_⟩
  simp [hp, Label.isText]

theorem update_ok (h : roles.update name permissions = .ok next) : ∃ r, roles.get? name = some r ∧
      Sets roles name (some { r with permissions := permissions.eraseDups }) next := by
  unfold update at h
  cases hr : roles.get? name with
  | none => simp [hr] at h
  | some r =>
    simp only [hr, Except.ok.injEq] at h
    subst h
    exact ⟨r, rfl, fun k => by simp [get?_put]⟩

variable {k : String}

theorem get?_of_ne {v : Option Role} (hget : Sets roles name v next) (hk : k ≠ name) :
    next.get? k = roles.get? k := by
  rw [hget, if_neg hk]

variable {r : Role}

theorem get?_of_removed (hget : Sets roles name none next) (hk : next.get? k = some r) : roles.get? k = some r := by
  rw [hget] at hk
  split_ifs at hk
  exact hk

theorem ne_of_free (hfree : roles.get? name = none) (hr : roles.get? k = some r) : k ≠ name := by
  rintro rfl
  simp [hfree] at hr

structure WellFormed (roles : Roles String) : Prop where
  named : ∀ k r, roles.get? k = some r → r.name = k
  closed : ∀ c p, ParentOf roles c p → ∃ q, roles.get? p = some q
  ranked : ∃ rank : String → Nat, ∀ c p, ParentOf roles c p → rank p < rank c

theorem standard_no_parent (h : standard.get? k = some r) : r.name = k ∧ r.parent = none := by
  have hall : ∀ e ∈ standard, e.2.name = e.1 ∧ e.2.parent = none := by decide
  exact hall (k, r) (mem_of_get? h)

theorem wellFormed_standard : WellFormed standard where
  named k r h := (standard_no_parent h).1
  closed := by
    rintro c p ⟨r, hr, hp, _⟩
    simp [(standard_no_parent hr).2] at hp
  ranked := by
    refine ⟨fun _ => 0, ?_⟩
    rintro c p ⟨r, hr, hp, _⟩
    simp [(standard_no_parent hr).2] at hp

variable (h : WellFormed roles)

include h

theorem WellFormed.add (hname : r.name = name) (hfree : roles.get? name = none)
    (hparent : Inherits roles r) (hget : Sets roles name (some r) next) : WellFormed next := by
  have hedge {c p : String} (hcp : ParentOf next c p) :
      ParentOf roles c p ∧ c ≠ name ∨ c = name ∧ r.parent = some p ∧ p ≠ "" := by
    obtain ⟨s, hs, hp, hpne⟩ := hcp
    by_cases hc : c = name
    · rw [hget, if_pos hc] at hs
      obtain rfl := Option.some.inj hs
      exact .inr ⟨hc, hp, hpne⟩
    · exact .inl ⟨⟨s, get?_of_ne hget hc ▸ hs, hp, hpne⟩, hc⟩
  refine ⟨?_, ?_, ?_⟩
  · intro k s hs
    by_cases hk : k = name
    · rw [hget, if_pos hk] at hs
      obtain rfl := Option.some.inj hs
      exact hname.trans hk.symm
    · exact h.named k s (get?_of_ne hget hk ▸ hs)
  · intro c p hcp
    have hp : ∃ q, roles.get? p = some q := by
      rcases hedge hcp with ⟨hcp, _⟩ | ⟨_, hp, hpne⟩
      · exact h.closed c p hcp
      · obtain ⟨q, hq, _⟩ := hparent p hp hpne
        exact ⟨q, hq⟩
    obtain ⟨q, hq⟩ := hp
    exact ⟨q, (get?_of_ne hget (ne_of_free hfree hq)).trans hq⟩
  · -- The new role ranks one above its parent. Neither end of an old edge is new, so old ranks stay.
    obtain ⟨rank, hrank⟩ := h.ranked
    refine ⟨fun k => if k = name then (r.parent.elim 0 rank) + 1 else rank k, ?_⟩
    intro c p hcp
    rcases hedge hcp with ⟨hcp, hc⟩ | ⟨hc, hp, hpne⟩
    · obtain ⟨q, hq⟩ := h.closed c p hcp
      simpa [hc, ne_of_free hfree hq] using hrank c p hcp
    · obtain ⟨q, hq, _⟩ := hparent p hp hpne
      simp [hc, ne_of_free hfree hq, hp]

theorem WellFormed.remove (hnobody : ∀ k r, roles.get? k = some r → r.parent ≠ some name)
    (hget : Sets roles name none next) : WellFormed next := by
  have hedge {c p : String} (hcp : ParentOf next c p) : ParentOf roles c p := by
    obtain ⟨r, hr, hp⟩ := hcp
    exact ⟨r, get?_of_removed hget hr, hp⟩
  refine ⟨fun k r hr => h.named k r (get?_of_removed hget hr), ?_, ?_⟩
  · intro c p hcp
    obtain ⟨q, hq⟩ := h.closed c p (hedge hcp)
    obtain ⟨r, hr, hp, _⟩ := hcp
    have hpn : p ≠ name := fun e => hnobody c r (get?_of_removed hget hr) (e ▸ hp)
    exact ⟨q, by rw [hget, if_neg hpn, hq]⟩
  · obtain ⟨rank, hrank⟩ := h.ranked
    exact ⟨rank, fun c p hcp => hrank c p (hedge hcp)⟩

omit h in
theorem parentOf_update (hr : roles.get? name = some r)
    (hget : Sets roles name (some { r with permissions }) next) {c p : String} :
    ParentOf next c p ↔ ParentOf roles c p := by
  by_cases hc : c = name
  · subst hc
    simp [ParentOf, hget, hr]
  · simp [ParentOf, hget, hc]

theorem WellFormed.update (hr : roles.get? name = some r)
    (hget : Sets roles name (some { r with permissions }) next) : WellFormed next := by
  refine ⟨?_, ?_, ?_⟩
  · intro k s hs
    by_cases hk : k = name
    · rw [hget, if_pos hk] at hs
      obtain rfl := Option.some.inj hs
      exact (h.named name r hr).trans hk.symm
    · rw [hget, if_neg hk] at hs
      exact h.named k s hs
  · intro c p hcp
    obtain ⟨q, hq⟩ := h.closed c p ((parentOf_update hr hget).mp hcp)
    by_cases hp : p = name
    · exact ⟨_, by rw [hget, if_pos hp]⟩
    · exact ⟨q, by rw [hget, if_neg hp, hq]⟩
  · obtain ⟨rank, hrank⟩ := h.ranked
    exact ⟨rank, fun c p hcp => hrank c p ((parentOf_update hr hget).mp hcp)⟩

variable {c : Change}

theorem WellFormed.apply (hc : c.apply roles = .ok next) : WellFormed next := by
  cases c with
  | add name description permissions parent =>
    obtain ⟨r, hname, rfl, hfree, hparent, hget⟩ := add_ok hc
    exact h.add hname hfree hparent hget
  | remove name =>
    obtain ⟨hnobody, hget⟩ := remove_ok hc
    exact h.remove hnobody hget
  | update name permissions =>
    obtain ⟨r, hr, hget⟩ := update_ok hc
    exact h.update hr hget

omit h

theorem perform_of_ok (h : c.apply roles = .ok next) : c.perform roles = (.ok (), next) := by
  simp only [Change.perform, h]

theorem perform_of_error {e : RoleError} (h : c.apply roles = .error e) : c.perform roles = (.error e, roles) := by
  simp only [Change.perform, h]

theorem parentOf_error_iff :
    (∃ e, roles.parentOf parent = .error e) ↔ ∃ p, parent = some p ∧ p ≠ "" ∧ roles.has p = false := by
  cases parent with
  | none => simp [parentOf]
  | some p =>
    by_cases hp : p = ""
    · simp [parentOf, Option.filter, Label.isBlank, hp]
    · rw [parentOf_some roles hp]
      cases hq : roles.get? p with
      | none => simp [has, hp, hq]
      | some q => simp [has, hq]

theorem apply_error_iff (c : Change) : (∃ e, c.apply roles = .error e) ↔ c.Refused roles := by
  cases c with
  | add name description permissions parent =>
    simp only [Change.Refused, ← parentOf_error_iff, Change.apply, add, inheritance]
    by_cases hhas : roles.has name
    · simp [hhas]
    · cases hp : roles.parentOf parent <;> simp [hhas]
  | remove name =>
    have hany : (roles.any fun e => e.2.parent.any (Label.isText name)) ↔
        ∃ k r, (k, r) ∈ roles ∧ r.parent = some name := by
      simp [Label.isText, Option.any_eq_true]
    rw [Change.Refused, ← hany]
    simp only [Change.apply, remove]
    split_ifs with hhas hparent
    · simp only [Bool.not_eq_true'] at hhas
      simp [hhas]
    · simp [hparent]
    · simp only [Bool.not_eq_true'] at hhas
      simp [hhas, Bool.eq_false_iff.mpr hparent]
  | update name permissions =>
    cases hr : roles.get? name with
    | none => simp [Change.apply, Change.Refused, update, has, hr]
    | some r => simp [Change.apply, Change.Refused, update, has, hr]

theorem perform_error_iff (c : Change) : (∃ e, (c.perform roles).1 = .error e) ↔ c.Refused roles := by
  rw [← apply_error_iff]
  cases hc : c.apply roles with
  | ok next => simp [perform_of_ok hc]
  | error e => simp [perform_of_error hc]

theorem apply_leaves (hc : c.apply roles = .ok next) (k : String) : next.has k ↔ c.Leaves roles k := by
  simp only [has]
  cases c with
  | add name description permissions parent =>
    obtain ⟨r, _, _, _, _, hget⟩ := add_ok hc
    by_cases hk : k = name <;> simp [Change.Leaves, has, hget, hk]
  | remove name =>
    obtain ⟨_, hget⟩ := remove_ok hc
    by_cases hk : k = name <;> simp [Change.Leaves, has, hget, hk]
  | update name permissions =>
    obtain ⟨r, hr, hget⟩ := update_ok hc
    by_cases hk : k = name <;> simp [Change.Leaves, has, hget, hk, hr]

theorem WellFormed.perform (h : WellFormed roles) (c : Change) : WellFormed (c.perform roles).2 := by
  cases hc : c.apply roles with
  | ok next => rw [perform_of_ok hc]; exact h.apply hc
  | error e => rw [perform_of_error hc]; exact h

theorem rolesAfter_append (c : Change) : rolesAfter (changes ++ [c]) = (c.perform (rolesAfter changes)).2 := by
  simp [rolesAfter]

theorem wellFormed_rolesAfter : WellFormed (rolesAfter changes) := by
  induction changes using List.reverseRecOn with
  | nil => exact wellFormed_standard
  | append_singleton changes c ih =>
    rw [rolesAfter_append]
    exact ih.perform c

theorem WellFormed.reaches_root (h : WellFormed roles) (hr : roles.get? name = some r) :
    ∃ root s, Relation.ReflTransGen (ParentOf roles) name root ∧ roles.get? root = some s ∧
      (s.parent = none ∨ s.parent = some "") := by
  obtain ⟨rank, hrank⟩ := h.ranked
  induction hn : rank name using Nat.strongRecOn generalizing name r with
  | ind n ih =>
    cases hp : r.parent with
    | none => exact ⟨name, r, .refl, hr, .inl hp⟩
    | some p =>
      by_cases hblank : p = ""
      · exact ⟨name, r, .refl, hr, .inr (hblank ▸ hp)⟩
      · have hedge : ParentOf roles name p := ⟨r, hr, hp, hblank⟩
        obtain ⟨q, hq⟩ := h.closed name p hedge
        obtain ⟨root, s, hpath, hs⟩ := ih (rank p) (hn ▸ hrank name p hedge) hq rfl
        exact ⟨root, s, .head hedge hpath, hs⟩

theorem WellFormed.no_cycle (h : WellFormed roles) (name : String) :
    ¬ Relation.TransGen (ParentOf roles) name name := by
  obtain ⟨rank, hrank⟩ := h.ranked
  have hdown {a b : String} (hab : Relation.TransGen (ParentOf roles) a b) : rank b < rank a := by
    induction hab with
    | single hab => exact hrank _ _ hab
    | tail _ hbc ih => exact Nat.lt_trans (hrank _ _ hbc) ih
  intro hcycle
  exact Nat.lt_irrefl _ (hdown hcycle)

/-- After any changes to the standard roles, every role stands under its own name, every parent that
is named exists, and going up from a role never comes back. The next change is refused for no
reasons but those of `Change.Refused`, and then leaves the table as it was; else only the name that
it is about comes or goes. -/
theorem rolesAfter_consistent (changes : List Change) :
    (∀ k r, (rolesAfter changes).get? k = some r → r.name = k) ∧
    (∀ k r p, (rolesAfter changes).get? k = some r → r.parent = some p → p ≠ "" →
      (rolesAfter changes).has p = true) ∧
    (∀ k, (rolesAfter changes).has k = true → ∃ root r,
      Relation.ReflTransGen (ParentOf (rolesAfter changes)) k root ∧
      (rolesAfter changes).get? root = some r ∧ (r.parent = none ∨ r.parent = some "")) ∧
    (∀ k, ¬ Relation.TransGen (ParentOf (rolesAfter changes)) k k) ∧
    (∀ c, (∃ e, (Change.perform (rolesAfter changes) c).1 = .error e) ↔
      c.Refused (rolesAfter changes)) ∧
    (∀ c e, (Change.perform (rolesAfter changes) c).1 = .error e →
      (Change.perform (rolesAfter changes) c).2 = rolesAfter changes) ∧
    (∀ c k, (Change.perform (rolesAfter changes) c).1 = .ok () →
      ((Change.perform (rolesAfter changes) c).2.has k = true ↔
        c.Leaves (rolesAfter changes) k)) := by
  have h := wellFormed_rolesAfter changes
  refine ⟨h.named, ?_, ?_, h.no_cycle, perform_error_iff, ?_, ?_⟩
  · intro k r p hr hp hne
    exact Keyed.has_iff.mpr (h.closed k p ⟨r, hr, hp, hne⟩)
  · intro k hk
    obtain ⟨r, hr⟩ := Keyed.has_iff.mp hk
    exact h.reaches_root hr
  · intro c e he
    cases hc : c.apply (rolesAfter changes) with
    | ok next => simp [perform_of_ok hc] at he
    | error f => rw [perform_of_error hc]
  · intro c k hok
    cases hc : c.apply (rolesAfter changes) with
    | ok next => rw [perform_of_ok hc]; exact apply_leaves hc k
    | error f => simp [perform_of_error hc] at hok

/-! What a role takes over from its parent. -/

def Covers (roles : Roles String) : Prop :=
  ∀ c p r q, ParentOf roles c p → roles.get? c = some r → roles.get? p = some q →
    q.permissions ⊆ r.permissions

/-- Permissions for a role that are neither less than its parent's nor more than those of a role
that was made from it. -/
def Fits (roles : Roles String) (name : String) (permissions : List Permission) : Prop :=
  (∀ p q, ParentOf roles name p → roles.get? p = some q → q.permissions ⊆ permissions) ∧
  (∀ c r, ParentOf roles c name → roles.get? c = some r → permissions ⊆ r.permissions)

theorem covers_standard : Covers standard := by
  rintro c p r q ⟨s, hs, hp, _⟩
  simp [(standard_no_parent hs).2] at hp

theorem Covers.add (h : Covers roles) (hw : WellFormed roles) (hfree : roles.get? name = none)
    (hparent : Inherits roles r) (hget : Sets roles name (some r) next) : Covers next := by
  rintro c p s q ⟨t, ht, hp, hpne⟩ hs hq
  obtain rfl := Option.some.inj (hs.symm.trans ht)
  by_cases hc : c = name
  · rw [hget, if_pos hc] at hs
    obtain rfl := Option.some.inj hs
    obtain ⟨q', hq', hsub⟩ := hparent p hp hpne
    rw [get?_of_ne hget (ne_of_free hfree hq'), hq'] at hq
    obtain rfl := Option.some.inj hq
    exact hsub
  · rw [get?_of_ne hget hc] at hs
    have hcp : ParentOf roles c p := ⟨s, hs, hp, hpne⟩
    obtain ⟨q', hq'⟩ := hw.closed c p hcp
    rw [get?_of_ne hget (ne_of_free hfree hq')] at hq
    exact h c p s q hcp hs hq

theorem Covers.remove (h : Covers roles) (hget : Sets roles name none next) : Covers next := by
  rintro c p r q ⟨s, hs, hp⟩ hr hq
  exact h c p r q ⟨s, get?_of_removed hget hs, hp⟩ (get?_of_removed hget hr) (get?_of_removed hget hq)

/-- New permissions of a role keep the law exactly if they fit. A role is not its own parent, so the
two conditions do not meet. -/
theorem Covers.update_iff (h : Covers roles) (hw : WellFormed roles) (hr : roles.get? name = some r)
    (hget : Sets roles name (some { r with permissions }) next) : Covers next ↔ Fits roles name permissions := by
  have hedge {c p : String} := parentOf_update (c := c) (p := p) hr hget
  have hself {p : String} (hp : ParentOf roles name p) : p ≠ name := by
    rintro rfl
    exact hw.no_cycle p (.single hp)
  have hnew : next.get? name = some { r with permissions } := by rw [hget, if_pos rfl]
  constructor
  · intro hn
    constructor
    · intro p q hp hq
      exact hn name p _ q (hedge.mpr hp) hnew ((get?_of_ne hget (hself hp)).trans hq)
    · intro c s hc hs
      have hcn : c ≠ name := by
        rintro rfl
        exact hw.no_cycle c (.single hc)
      exact hn c name s _ (hedge.mpr hc) ((get?_of_ne hget hcn).trans hs) hnew
  · rintro ⟨hup, hdown⟩ c p s q hcp hs hq
    have hcp := hedge.mp hcp
    by_cases hc : c = name
    · subst hc
      rw [get?_of_ne hget (hself hcp)] at hq
      rw [hnew] at hs
      obtain rfl := Option.some.inj hs
      exact hup p q hcp hq
    · rw [get?_of_ne hget hc] at hs
      by_cases hp : p = name
      · subst hp
        rw [hnew] at hq
        obtain rfl := Option.some.inj hq
        exact hdown c s hcp hs
      · rw [get?_of_ne hget hp] at hq
        exact h c p s q hcp hs hq

theorem WellFormed.fits_of_missing (h : WellFormed roles) (hname : roles.get? name = none)
    (permissions : List Permission) : Fits roles name permissions := by
  constructor
  · rintro p q ⟨r, hr, _⟩
    simp [hname] at hr
  · intro c r hc
    obtain ⟨q, hq⟩ := h.closed c name hc
    simp [hname] at hq

theorem fits_eraseDups : Fits roles name permissions.eraseDups ↔ Fits roles name permissions := by
  simp only [Fits, subset_def, mem_eraseDups]

theorem Covers.perform_iff (h : Covers roles) (hw : WellFormed roles) (c : Change) : Covers (c.perform roles).2 ↔
      ∀ name permissions, c = .update name permissions → Fits roles name permissions := by
  cases c with
  | add name description permissions parent =>
    refine ⟨by simp, fun _ => ?_⟩
    cases hc : (Change.add name description permissions parent).apply roles with
    | error e => rwa [perform_of_error hc]
    | ok next =>
      obtain ⟨r, _, rfl, hfree, hparent, hget⟩ := add_ok hc
      rw [perform_of_ok hc]
      exact h.add hw hfree hparent hget
  | remove name =>
    refine ⟨by simp, fun _ => ?_⟩
    cases hc : (Change.remove name).apply roles with
    | error e => rwa [perform_of_error hc]
    | ok next =>
      rw [perform_of_ok hc]
      exact h.remove (remove_ok hc).2
  | update name permissions =>
    have hone : (∀ n ps, Change.update name permissions = .update n ps → Fits roles n ps) ↔
        Fits roles name permissions := by
      constructor
      · exact fun hall => hall name permissions rfl
      · rintro hf n ps he
        obtain ⟨rfl, rfl⟩ := Change.update.inj he
        exact hf
    rw [hone]
    cases hc : (Change.update name permissions).apply roles with
    | ok next =>
      obtain ⟨r, hr, hget⟩ := update_ok hc
      rw [perform_of_ok hc, h.update_iff hw hr hget, fits_eraseDups]
    | error e =>
      have hmissing : roles.get? name = none := by
        cases hr : roles.get? name with
        | none => rfl
        | some r => simp [Change.apply, update, hr] at hc
      rw [perform_of_error hc]
      exact ⟨fun _ => hw.fits_of_missing hmissing permissions, fun _ => h⟩

/-- All through a run every role permits what its parent permits, if and only if all new permissions
that the run gives fit. -/
theorem rolesAfter_covers_iff (changes : List Change) :
    (∀ earlier later, changes = earlier ++ later → Covers (rolesAfter earlier)) ↔
      ∀ earlier name permissions later, changes = earlier ++ .update name permissions :: later →
        Fits (rolesAfter earlier) name permissions := by
  constructor
  · intro hall earlier name permissions later hs
    have hbefore := hall earlier (.update name permissions :: later) hs
    have hafter := hall (earlier ++ [.update name permissions]) later (by simp [hs])
    rw [rolesAfter_append, hbefore.perform_iff (wellFormed_rolesAfter earlier)] at hafter
    exact hafter name permissions rfl
  · intro hall earlier
    induction earlier using List.reverseRecOn with
    | nil => exact fun _ _ => covers_standard
    | append_singleton earlier c ih =>
      intro later hs
      have hs' : changes = earlier ++ c :: later := by simp [hs]
      have hbefore := ih (c :: later) hs'
      rw [rolesAfter_append, hbefore.perform_iff (wellFormed_rolesAfter earlier)]
      rintro name permissions rfl
      exact hall earlier name permissions later hs'

/-- A role keeps what its parent had when it was made, so that the parent can come to have more. -/
theorem rolesAfter_not_covers : ¬ Covers (rolesAfter
    [.add "guest" "" [] (some "user"), .update "user" [.read, .runAnalysis, .write]]) := by
  intro h
  have hsub := h "guest" "user" ⟨"guest", "", [.read, .runAnalysis], some "user"⟩
    ⟨"user", "Utilisateur standard", [.read, .runAnalysis, .write], none⟩
    ⟨⟨"guest", "", [.read, .runAnalysis], some "user"⟩, by decide, rfl, by decide⟩ (by decide) (by decide)
  exact absurd (hsub (by simp : Permission.write ∈ _)) (by decide)

end CodeAudit.Access

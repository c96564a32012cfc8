import CodeAudit.Journal

/-! Striking secrets out tells two values apart exactly if they differ in something that is no
secret. -/

namespace CodeAudit.Journal

def NamesSecret (key : String) : Prop :=
  ∃ word ∈ ["password", "token", "secret", "key", "auth"], word.toList <:+: (lowerText key).toList

theorem isSecret_iff {key : String} : isSecret key ↔ NamesSecret key := by
  rw [isSecret, List.any_eq_true]
  exact exists_congr fun word => and_congr_right fun _ => Chars.occurs_iff

def IsScalar (v : Value) : Prop := (∀ items, v ≠ .list items) ∧ ∀ entries, v ≠ .object entries

theorem scalar_or_made (v : Value) : IsScalar v ∨ (∃ items, v = .list items) ∨ ∃ entries, v = .object entries := by
  cases v with
  | list items => exact .inr (.inl ⟨items, rfl⟩)
  | object entries => exact .inr (.inr ⟨entries, rfl⟩)
  | _ => exact .inl ⟨by simp, by simp⟩

theorem sanitize_scalar {v : Value} (h : IsScalar v) : sanitize v = v := by
  cases v with
  | list items => exact absurd rfl (h.1 items)
  | object entries => exact absurd rfl (h.2 entries)
  | _ => rfl

mutual

/-- The values have the same shape, and they differ at most in what stands under a key that names a
secret. -/
inductive SameButSecrets : Value → Value → Prop where
  | scalar {v : Value} (h : IsScalar v) : SameButSecrets v v
  | list {vs ws : List Value} (h : SameItems vs ws) : SameButSecrets (.list vs) (.list ws)
  | object {vs ws : Entries} (h : SameEntries vs ws) : SameButSecrets (.object vs) (.object ws)

inductive SameItems : List Value → List Value → Prop where
  | nil : SameItems [] []
  | cons {v w : Value} {vs ws : List Value} (h : SameButSecrets v w) (hs : SameItems vs ws) :
    SameItems (v :: vs) (w :: ws)

inductive SameEntries : Entries → Entries → Prop where
  | nil : SameEntries [] []
  | secret {key : String} {v w : Value} {vs ws : Entries} (hkey : NamesSecret key) (hs : SameEntries vs ws) :
    SameEntries ((key, v) :: vs) ((key, w) :: ws)
  | plain {key : String} {v w : Value} {vs ws : Entries} (h : SameButSecrets v w) (hs : SameEntries vs ws) :
    SameEntries ((key, v) :: vs) ((key, w) :: ws)

end

mutual

theorem SameButSecrets.sanitize_eq {v w : Value} : SameButSecrets v w → sanitize v = sanitize w
  | .scalar _ => rfl
  | .list h => by rw [sanitize, sanitize, h.sanitize_eq]
  | .object h => by rw [sanitize, sanitize, h.sanitize_eq]

theorem SameItems.sanitize_eq {vs ws : List Value} : SameItems vs ws → sanitizeItems vs = sanitizeItems ws
  | .nil => rfl
  | .cons h hs => by rw [sanitizeItems, sanitizeItems, h.sanitize_eq, hs.sanitize_eq]

theorem SameEntries.sanitize_eq {vs ws : Entries} : SameEntries vs ws → sanitizeEntries vs = sanitizeEntries ws
  | .nil => rfl
  | .secret hkey hs => by
    rw [sanitizeEntries, sanitizeEntries, if_pos (isSecret_iff.mpr hkey),
      if_pos (isSecret_iff.mpr hkey), hs.sanitize_eq]
  | .plain h hs => by rw [sanitizeEntries, sanitizeEntries, h.sanitize_eq, hs.sanitize_eq]

end

mutual

theorem sameButSecrets_of_eq {v w : Value} (h : sanitize v = sanitize w) : SameButSecrets v w := by
  rcases scalar_or_made w with hw | ⟨ws, rfl⟩ | ⟨ws, rfl⟩
  · rw [sanitize_scalar hw] at h
    cases v with
    | list vs => exact absurd h.symm (hw.1 _)
    | object vs => exact absurd h.symm (hw.2 _)
    | _ =>
      subst h
      exact .scalar hw
  · cases v with
    | list vs =>
      rw [sanitize, sanitize, Value.list.injEq] at h
      exact .list (sameItems_of_eq h)
    | _ => simp [sanitize] at h
  · cases v with
    | object vs =>
      rw [sanitize, sanitize, Value.object.injEq] at h
      exact .object (sameEntries_of_eq h)
    | _ => simp [sanitize] at h

theorem sameItems_of_eq {vs ws : List Value} (h : sanitizeItems vs = sanitizeItems ws) : SameItems vs ws := by
  cases vs with
  | nil =>
    cases ws with
    | nil => exact .nil
    | cons w ws => simp [sanitizeItems] at h
  | cons v vs =>
    cases ws with
    | nil => simp [sanitizeItems] at h
    | cons w ws =>
      rw [sanitizeItems, sanitizeItems, List.cons.injEq] at h
      exact .cons (sameButSecrets_of_eq h.1) (sameItems_of_eq h.2)

theorem sameEntries_of_eq {vs ws : Entries} (h : sanitizeEntries vs = sanitizeEntries ws) : SameEntries vs ws := by
  cases vs with
  | nil =>
    cases ws with
    | nil => exact .nil
    | cons e ws => simp [sanitizeEntries] at h
  | cons e vs =>
    obtain ⟨key, v⟩ := e
    cases ws with
    | nil => simp [sanitizeEntries] at h
    | cons e ws =>
      obtain ⟨other, w⟩ := e
      rw [sanitizeEntries, sanitizeEntries, List.cons.injEq, Prod.mk.injEq] at h
      obtain ⟨⟨rfl, hvalue⟩, hrest⟩ := h
      by_cases hkey : isSecret key
      · exact .secret (isSecret_iff.mp hkey) (sameEntries_of_eq hrest)
      · rw [if_neg hkey, if_neg hkey] at hvalue
        exact .plain (sameButSecrets_of_eq hvalue) (sameEntries_of_eq hrest)

end

mutual

theorem sanitize_sanitize (v : Value) : sanitize (sanitize v) = sanitize v := by
  cases v with
  | list vs => rw [sanitize, sanitize, sanitizeItems_sanitizeItems]
  | object vs => rw [sanitize, sanitize, sanitizeEntries_sanitizeEntries]
  | _ => rfl

theorem sanitizeItems_sanitizeItems (vs : List Value) : sanitizeItems (sanitizeItems vs) = sanitizeItems vs := by
  cases vs with
  | nil => rfl
  | cons v vs => rw [sanitizeItems, sanitizeItems, sanitize_sanitize, sanitizeItems_sanitizeItems]

theorem sanitizeEntries_sanitizeEntries (vs : Entries) :
    sanitizeEntries (sanitizeEntries vs) = sanitizeEntries vs := by
  cases vs with
  | nil => rfl
  | cons e vs =>
    obtain ⟨key, v⟩ := e
    rw [sanitizeEntries, sanitizeEntries, sanitizeEntries_sanitizeEntries]
    by_cases hkey : isSecret key
    · rw [if_pos hkey, if_pos hkey]
    · rw [if_neg hkey, if_neg hkey, sanitize_sanitize]

end

/-- Two values come out the same exactly if they differ at most in their secrets. What comes out
differs from the value at most in its secrets, and to strike them out again changes nothing. -/
theorem sanitize_hides_only_secrets (v w : Value) :
    (SameButSecrets v w ↔ sanitize v = sanitize w) ∧ SameButSecrets v (sanitize v) ∧
      sanitize (sanitize v) = sanitize v :=
  ⟨⟨SameButSecrets.sanitize_eq, sameButSecrets_of_eq⟩, sameButSecrets_of_eq (sanitize_sanitize v).symm,
    sanitize_sanitize v⟩

end CodeAudit.Journal

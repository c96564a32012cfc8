import CodeAudit.Proofs.Authentication
import CodeAudit.Proofs.VaultFile

/-! The life of tokens with roles. Whatever reader of tokens is in use, a token is read back until
it ends whenever the secret in use is that under which it was made. -/

namespace CodeAudit.Access

open Function Vault List Config Time Option

inductive Purpose where
  | access | refresh

namespace Purpose

def word : Purpose → String
  | .access => "access"
  | .refresh => "refresh"

def lifetime : Purpose → Int
  | .access => TokenKeeper.accessTime
  | .refresh => TokenKeeper.refreshTime

end Purpose

namespace TokenKeeper

variable {k : TokenKeeper} {now time : Int} {purpose : Purpose} {user expected : String} {roles : List String}
  {t : SignedToken} {c : TokenClaims}

def make (k : TokenKeeper) : Purpose → Int → Value → Value → Outcome SignedToken
  | .access => k.issueAccess
  | .refresh => k.issueRefresh

def signedFor (purpose : Purpose) (time : Int) (user : String) (roles : List String) (secret : String) :
    SignedToken where
  claims := [
    ("sub", .text user), ("exp", .int (secondOf (time + purpose.lifetime))), ("iat", .int (secondOf time)),
    ("type", .text purpose.word), ("roles", .texts roles)]
  secret := secret

theorem together_texts (place : List String) (n : Nat) (roles : List String) :
    Kind.together (((roles.map .text).zipIdx n).map fun e => Kind.readText (place ++ [natText e.2]) e.1) =
      .ok (roles.map .text) := by
  induction roles generalizing n with
  | nil => rfl
  | cons r rest ih =>
    have hr (p : List String) : Kind.readText p (.text r) = .ok (.text r) := rfl
    simp [Kind.together, ih, hr]

theorem readUser_texts (user : String) (roles : List String) :
    readUser (.text user) (.texts roles) = .ok (.text user, .texts roles) := by
  have hroles : Kind.texts.read ["roles"] (.texts roles) = .ok (.texts roles) :=
    congrArg (Except.map Value.list) (together_texts ["roles"] 0 roles)
  rw [readUser, hroles]
  rfl

theorem make_eq (k : TokenKeeper) (purpose : Purpose) (time : Int) (user : String) (roles : List String) :
    k.make purpose time (.text user) (.texts roles) = if isOnCalendar (time + purpose.lifetime) then
        match k.secret with
        | .text secret => .ok (signedFor purpose time user roles secret)
        | _ => .error (.wrongType "Expected a string value")
      else .error (.overflow "date value out of range") := by
  have hissue : k.make purpose time (.text user) (.texts roles) =
      k.issue purpose.word purpose.lifetime time (.text user) (.texts roles) := by
    cases purpose <;> rfl
  rw [hissue]
  unfold issue
  simp only [readUser_texts, later]
  split_ifs
  · cases k.secret <;> rfl
  · rfl

theorem make_eq_ok_iff : k.make purpose time (.text user) (.texts roles) = .ok t ↔
      isOnCalendar (time + purpose.lifetime) ∧
        ∃ secret, k.secret = .text secret ∧ t = signedFor purpose time user roles secret := by
  rw [make_eq]
  split_ifs with hcal
  · cases k.secret <;> simp [hcal, eq_comm]
  · simp [hcal]

def claimsFor (purpose : Purpose) (time : Int) (user : String) (roles : List String) : TokenClaims where
  subject := user
  expires := momentOfSeconds (.int (secondOf (time + purpose.lifetime)))
  issued := momentOfSeconds (.int (secondOf time))
  kind := purpose.word
  roles := roles

theorem textsClaim_texts (roles : List String) : textsClaim (.texts roles) = some roles := by
  simp only [textsClaim, Value.texts]
  induction roles with
  | nil => rfl
  | cons r rest ih =>
    simp only [map_cons, mapM_cons, ih]
    rfl

theorem ofEntries_signedFor (purpose : Purpose) (time : Int) (user : String) (roles : List String) (secret : String) :
    TokenClaims.ofEntries (signedFor purpose time user roles secret).claims =
      some (claimsFor purpose time user roles) :=
  ofEntries_eq_some_iff.mpr ⟨rfl, rfl, rfl, rfl, textsClaim_texts roles⟩

end TokenKeeper

namespace TokenReader

/-- What any reader of tokens is expected to do. It gives the claims of a token under no other
secret than that of the token. A token that says in whole seconds when it was made and when it ends
is good from then on and before its end, and good no longer a second after it. The second between is
left to the reader. -/
structure IsReliable (read : TokenReader) : Prop where
  genuine {t : SignedToken} {now : Int} {secret : String} {entries : Entries} :
    read t now secret = .ok entries → t.secret = secret ∧ entries = t.claims
  early {t : SignedToken} {now issued ending : Int} : t.algorithm = "HS256" →
    t.claims.lookup "iat" = some (.int issued) → t.claims.lookup "exp" = some (.int ending) →
    t.claims.lookup "nbf" = none → t.claims.lookup "aud" = none →
    issued * 1000000 ≤ now → now < ending * 1000000 → read t now t.secret = .ok t.claims
  late {t : SignedToken} {now ending : Int} {secret : String} {entries : Entries} :
    t.claims.lookup "exp" = some (.int ending) → (ending + 1) * 1000000 ≤ now → read t now secret ≠ .ok entries

def Reads (read : TokenReader) (now : Int) (t : SignedToken) : Prop := read t now t.secret = .ok t.claims

variable {read : TokenReader} (h : read.IsReliable) {t : SignedToken} {now : Int} {entries : Entries}

include h

theorem IsReliable.readWith_eq_ok_iff {secret : Value} : t.readWith now secret read = .ok entries ↔
      secret = .text t.secret ∧ read.Reads now t ∧ entries = t.claims := by
  unfold SignedToken.readWith
  split
  next s =>
    rw [Value.text.injEq]
    constructor
    · intro hread
      obtain ⟨rfl, rfl⟩ := h.genuine hread
      exact ⟨rfl, hread, rfl⟩
    · rintro ⟨rfl, hread, rfl⟩
      exact hread
  next hno =>
    refine iff_of_false (by simp) ?_
    rintro ⟨rfl, -⟩
    exact hno t.secret rfl

omit h

theorem wholeSeconds_eq_ok_iff {secret : String} : wholeSeconds t now secret = .ok entries ↔
      t.algorithm = "HS256" ∧ t.secret = secret ∧ InForce (secondOf now) t.claims ∧ entries = t.claims := by
  unfold wholeSeconds
  by_cases hm : t.algorithm = "HS256" ∧ t.secret = secret
  · rw [t.read_of_match now hm.1 hm.2, ← checkClaims_eq_ok_iff]
    cases checkClaims (secondOf now) t.claims <;> simp [Except.map, hm, eq_comm]
  · rw [t.read_of_mismatch now hm]
    simp only [reduceCtorEq, false_iff]
    exact fun h => hm ⟨h.1, h.2.1⟩

theorem isReliable_wholeSeconds : wholeSeconds.IsReliable where
  genuine hread := by
    obtain ⟨-, hsecret, -, hentries⟩ := wholeSeconds_eq_ok_iff.mp hread
    exact ⟨hsecret, hentries⟩
  early {t now issued ending} halgorithm hiat hexp hnbf haud _ hend := by
    have hbefore : secondOf now ≤ ending := by unfold secondOf; omega
    exact wholeSeconds_eq_ok_iff.mpr ⟨halgorithm, rfl, (inForce_iff hexp hiat hnbf haud).mpr hbefore, rfl⟩
  late {t now ending secret entries} hexp hend hread := by
    obtain ⟨-, -, hforce, -⟩ := wholeSeconds_eq_ok_iff.mp hread
    obtain ⟨n, hn, hle⟩ := hforce.unexpired _ hexp
    cases hn
    unfold secondOf at hle
    omega

end TokenReader

namespace TokenKeeper

variable {k : TokenKeeper} {now time : Int} {purpose : Purpose} {user expected : String} {roles : List String}
  {t : SignedToken} {c : TokenClaims}

section Reading

variable {read : TokenReader} (h : read.IsReliable)

include h

theorem verify_eq_ok_iff : k.verify now (some t) (.text expected) read = .ok c ↔
      k.secret = .text t.secret ∧ read.Reads now t ∧ TokenClaims.ofEntries t.claims = some c ∧ c.kind = expected := by
  unfold verify
  rcases ht : t.readWith now k.secret read with e | entries
  · have hnot : ¬ (k.secret = .text t.secret ∧ read.Reads now t) := by
      rintro ⟨hs, hr⟩
      cases ht.symm.trans (h.readWith_eq_ok_iff.mpr ⟨hs, hr, rfl⟩)
    refine iff_of_false ?_ fun h => hnot ⟨h.1, h.2.1⟩
    cases e <;> simp [ht]
  · obtain ⟨hs, hr, rfl⟩ := h.readWith_eq_ok_iff.mp ht
    rcases hc : TokenClaims.ofEntries t.claims with _ | c'
    · simp [ht, hc]
    · simp only [ht, hc, Value.equals, beq_iff_eq, some.injEq]
      rw [and_iff_right hs, and_iff_right hr]
      split_ifs with hkind
      · rw [Except.ok.injEq]
        exact ⟨fun h => ⟨h, h ▸ hkind⟩, And.left⟩
      · refine iff_of_false (by simp) ?_
        rintro ⟨rfl, h⟩
        exact hkind h

theorem verify_signedFor_iff {secret : String} :
    k.verify now (some (signedFor purpose time user roles secret)) (.text expected) read = .ok c ↔
      k.secret = .text secret ∧ read.Reads now (signedFor purpose time user roles secret) ∧
        expected = purpose.word ∧ c = claimsFor purpose time user roles := by
  rw [verify_eq_ok_iff h, ofEntries_signedFor, some.injEq]
  refine and_congr_right fun _ => and_congr_right fun _ => ?_
  constructor
  · rintro ⟨rfl, rfl⟩
    exact ⟨rfl, rfl⟩
  · rintro ⟨rfl, rfl⟩
    exact ⟨rfl, rfl⟩

theorem reads_signedFor {secret : String} (hmade : time ≤ now)
    (hend : now < secondOf (time + purpose.lifetime) * 1000000) :
    read.Reads now (signedFor purpose time user roles secret) := by
  refine h.early rfl rfl rfl rfl rfl ?_ hend
  unfold secondOf
  omega

theorem not_reads_signedFor {secret : String} (hend : (secondOf (time + purpose.lifetime) + 1) * 1000000 ≤ now) :
    ¬ read.Reads now (signedFor purpose time user roles secret) :=
  h.late rfl hend

end Reading

section Rotation

variable {vault : Vault} {secret : Value}

theorem secretNamed_of_sound (h : vault.Sound) (name : String) :
    secretNamed vault name = .ok ((vault.held name).filter Value.truthy) := by
  unfold secretNamed
  rw [get_of_sound h]
  cases vault.held name with
  | none => rfl
  | some found => simp only [getD_some, ok_bind, pure_eq_ok, filter_some]

structure InStep (k : TokenKeeper) : Prop where
  held : k.vault.held "JWT_SECRET" = some k.secret
  truthy : k.secret.truthy = true

theorem start_eq_ok_iff (h : vault.Sound) : start vault = .ok k ↔ k.vault = vault ∧ k.InStep := by
  unfold start
  rw [secretNamed_of_sound h]
  simp only [ok_bind]
  cases hfound : (vault.held "JWT_SECRET").filter Value.truthy with
  | none =>
    simp only [reduceCtorEq, false_iff, not_and]
    rintro rfl hstep
    simp [hstep.held, hstep.truthy] at hfound
  | some found =>
    obtain ⟨hheld, htruthy⟩ := filter_eq_some_iff.mp hfound
    simp only [pure_eq_ok, Except.ok.injEq]
    constructor
    · rintro rfl
      exact ⟨rfl, hheld, htruthy⟩
    · rintro ⟨rfl, hstep⟩
      obtain rfl := some.inj (hstep.held.symm.trans hheld)
      rfl

inductive Rotated (k : TokenKeeper) : Outcome Unit → TokenKeeper → Prop where
  | refused : (∀ secret, k.vault.held "NEW_JWT_SECRET" = some secret → secret.truthy = false) →
      Rotated k (.error (.badValue "NEW_JWT_SECRET non défini")) k
  | replaced {secret : Value} {vault : Vault} : k.vault.held "NEW_JWT_SECRET" = some secret → secret.truthy = true →
      k.vault.Updated vault
        (update (update k.vault.held "JWT_SECRET" (some secret)) "NEW_JWT_SECRET" none) →
      Rotated k (.ok ()) { secret, vault }

theorem rotate_cases (h : k.vault.Sound) (now : Int) : k.Rotated (k.rotate now).1 (k.rotate now).2.2 ∨
      k.vault.writable = false ∧ ∃ secret vault, secret.truthy = true ∧
        k.vault.Updated vault (update k.vault.held "JWT_SECRET" (some secret)) ∧
          (k.rotate now).2.2 = { secret, vault } := by
  unfold rotate
  rw [secretNamed_of_sound h]
  cases hfound : (k.vault.held "NEW_JWT_SECRET").filter Value.truthy with
  | none =>
    refine .inl (.refused fun secret hsecret => ?_)
    simpa [hsecret] using hfound
  | some secret =>
    obtain ⟨hheld, htruthy⟩ := filter_eq_some_iff.mp hfound
    obtain ⟨vault, hset, hput⟩ := set_of_sound h "JWT_SECRET" secret
    simp only [hset]
    cases hw : k.vault.writable with
    | false =>
      simp only [save_of_unwritable hw]
      exact .inr ⟨trivial, secret, vault, htruthy, hput, rfl⟩
    | true =>
      -- The first write leaves the new secret under its own name, so that there is something to
      -- take out.
      have hstill : vault.held "NEW_JWT_SECRET" = some secret := by rw [hput.held, update_of_ne (by decide), hheld]
      obtain ⟨vault', hdelete, htaken⟩ := delete_of_some hput.sound hstill
      simp only [save_of_writable hw, hdelete, save_of_writable (hput.writable.trans hw)]
      refine .inl (.replaced hheld htruthy ⟨htaken.sound, htaken.writable.trans hput.writable, ?_, ?_⟩)
      · rw [htaken.held, hput.held]
      · exact fun _ => htaken.saved (hput.writable.trans hw)

theorem rotated (h : k.vault.Sound) (hw : k.vault.writable = true) (now : Int) :
    k.Rotated (k.rotate now).1 (k.rotate now).2.2 :=
  (rotate_cases h now).resolve_right fun hno => absurd (hw.symm.trans hno.1) (by decide)

section

variable {outcome : Outcome Unit} {k' : TokenKeeper} (h : k.Rotated outcome k')

include h

theorem Rotated.secret_eq (hheld : k.vault.held "NEW_JWT_SECRET" = some secret) (htruthy : secret.truthy) :
    k'.secret = secret := by
  cases h with
  | refused hnone => exact absurd (hnone secret hheld) (by simp [htruthy])
  | replaced hnew => exact some.inj (hnew.symm.trans hheld)

theorem Rotated.sound (hk : k.vault.Sound) : k'.vault.Sound := by
  cases h with
  | refused => exact hk
  | replaced _ _ hupdated => exact hupdated.sound

theorem Rotated.inStep (hk : k.InStep) : k'.InStep := by
  cases h with
  | refused => exact hk
  | replaced _ htruthy hupdated =>
    refine ⟨?_, htruthy⟩
    rw [hupdated.held, update_of_ne (by decide), update_self]

end

theorem sound_rotate (h : k.vault.Sound) (now : Int) : (k.rotate now).2.2.vault.Sound := by
  rcases rotate_cases h now with hrotated | ⟨-, secret, vault, -, hupdated, hk⟩
  · exact hrotated.sound h
  · rw [hk]
    exact hupdated.sound

theorem inStep_rotate (h : k.vault.Sound) (hstep : k.InStep) (now : Int) : (k.rotate now).2.2.InStep := by
  rcases rotate_cases h now with hrotated | ⟨-, secret, vault, htruthy, hupdated, hk⟩
  · exact hrotated.inStep hstep
  · rw [hk]
    refine ⟨?_, htruthy⟩
    rw [hupdated.held, update_self]

end Rotation

structure Issued where
  purpose : Purpose
  time : Int
  user : String
  roles : List String
  secret : Value
  token : SignedToken

namespace Issued

variable (i : Issued)

def ending : Int := i.time + i.purpose.lifetime

def claims : TokenClaims := claimsFor i.purpose i.time i.user i.roles

def Faithful : Prop :=
  ∃ secret, i.secret = .text secret ∧ i.token = signedFor i.purpose i.time i.user i.roles secret

variable {i} {read : TokenReader} (hread : read.IsReliable) (h : i.Faithful)

include hread h

theorem Faithful.verify_iff : k.verify now (some i.token) (.text expected) read = .ok c ↔
      k.secret = i.secret ∧ read.Reads now i.token ∧ expected = i.purpose.word ∧ c = i.claims := by
  obtain ⟨secret, hsecret, htoken⟩ := h
  rw [htoken, hsecret]
  exact verify_signedFor_iff hread

theorem Faithful.reads (hmade : i.time ≤ now) (hend : now < secondOf i.ending * 1000000) :
    read.Reads now i.token := by
  obtain ⟨secret, -, htoken⟩ := h
  exact htoken ▸ reads_signedFor hread hmade hend

theorem Faithful.not_reads (hend : (secondOf i.ending + 1) * 1000000 ≤ now) : ¬ read.Reads now i.token := by
  obtain ⟨secret, -, htoken⟩ := h
  exact htoken ▸ not_reads_signedFor hread hend

end Issued

inductive Deed where
  | make (purpose : Purpose) (user : String) (roles : List String)
  | rotate
  | store (name : String) (secret : Value)
  | discard (name : String)
  | allow (writable : Bool)

def Deed.Handles (name : String) : Deed → Prop
  | .store other _ | .discard other => other = name
  | _ => False

structure Ledger where
  keeper : TokenKeeper
  issued : List Issued := []

namespace Ledger

variable {s : Ledger} {d : Deed}

def withVault (s : Ledger) (vault : Vault) : Ledger := { s with keeper := { s.keeper with vault } }

def next (s : Ledger) (time : Int) : Deed → Ledger
  | .make purpose user roles =>
    match s.keeper.make purpose time (.text user) (.texts roles) with
    | .ok token => { s with issued := s.issued ++ [{ purpose, time, user, roles, secret := s.keeper.secret, token }] }
    | .error _ => s
  | .rotate => { s with keeper := (s.keeper.rotate time).2.2 }
  | .store name secret => s.withVault (s.keeper.vault.set (.text name) secret).2
  | .discard name => s.withVault (s.keeper.vault.delete (.text name)).2
  | .allow writable => s.withVault { s.keeper.vault with writable }

def after (k : TokenKeeper) (deeds : List (Int × Deed)) : Ledger :=
  deeds.foldl (fun s d => s.next d.1 d.2) { keeper := k }

structure Kept (s : Ledger) : Prop where
  sound : s.keeper.vault.Sound
  faithful : ∀ i ∈ s.issued, i.Faithful

theorem kept_make (h : s.Kept) (time : Int) (purpose : Purpose) (user : String) (roles : List String) :
    (s.next time (.make purpose user roles)).Kept := by
  simp only [next]
  cases hmake : s.keeper.make purpose time (.text user) (.texts roles) with
  | error f => exact h
  | ok t =>
    refine ⟨h.sound, fun i hi => ?_⟩
    rcases mem_append.mp hi with hi | hi
    · exact h.faithful i hi
    · obtain rfl := mem_singleton.mp hi
      obtain ⟨-, secret, hsecret, htoken⟩ := make_eq_ok_iff.mp hmake
      exact ⟨secret, hsecret, htoken⟩

theorem kept_next (h : s.Kept) (time : Int) (d : Deed) : (s.next time d).Kept := by
  cases d with
  | make purpose user roles => exact kept_make h time purpose user roles
  | rotate => exact ⟨sound_rotate h.sound time, h.faithful⟩
  | store name secret =>
    obtain ⟨vault, hset, hupdated⟩ := set_of_sound h.sound name secret
    refine ⟨?_, h.faithful⟩
    simp only [next, hset]
    exact hupdated.sound
  | discard name => exact ⟨(held_delete h.sound name).1, h.faithful⟩
  | allow writable => exact ⟨h.sound, h.faithful⟩

theorem inStep_next (h : s.Kept) (hstep : s.keeper.InStep) (time : Int) (hd : ¬ d.Handles "JWT_SECRET") :
    (s.next time d).keeper.InStep := by
  cases d with
  | make purpose user roles =>
    have hsame : (s.next time (.make purpose user roles)).keeper = s.keeper := by
      simp only [next]
      split <;> rfl
    exact hsame ▸ hstep
  | rotate => exact inStep_rotate h.sound hstep time
  | store name secret =>
    obtain ⟨vault, hset, hupdated⟩ := set_of_sound h.sound name secret
    refine ⟨?_, hstep.truthy⟩
    simp only [next, withVault, hset, hupdated.held]
    rw [update_of_ne (Ne.symm hd), hstep.held]
  | discard name =>
    refine ⟨?_, hstep.truthy⟩
    simp only [next, withVault, (held_delete h.sound name).2]
    rw [update_of_ne (Ne.symm hd), hstep.held]
  | allow writable => exact ⟨hstep.held, hstep.truthy⟩

theorem after_append (deeds : List (Int × Deed)) (d : Int × Deed) :
    after k (deeds ++ [d]) = (after k deeds).next d.1 d.2 := by
  simp [after]

theorem kept_after (hk : k.vault.Sound) (deeds : List (Int × Deed)) : (after k deeds).Kept := by
  induction deeds using List.reverseRecOn with
  | nil => exact ⟨hk, by simp [after]⟩
  | append_singleton deeds d ih =>
    rw [after_append]
    exact kept_next ih d.1 d.2

theorem inStep_after (hk : k.vault.Sound) (hstep : k.InStep) (deeds : List (Int × Deed))
    (hdeeds : ∀ d ∈ deeds, ¬ d.2.Handles "JWT_SECRET") : (after k deeds).keeper.InStep := by
  induction deeds using List.reverseRecOn with
  | nil => exact hstep
  | append_singleton deeds d ih =>
    rw [after_append]
    exact inStep_next (kept_after hk deeds) (ih fun e he => hdeeds e (by simp [he])) d.1 (hdeeds d (by simp))

end Ledger

/-- After any deeds, a token gives what it was made for and nothing else, if the secret in use is
that under which it was made, it serves for what is expected, and the reader still takes it: from
when it was made until the second of its end, and no longer when that second is over. If the vault
can be written, a rotation changes nothing, or it takes the new secret into use. So the keeper and
its vault stay in step, unless someone changes the secret of the vault by hand. -/
theorem issued_read_iff_secret_stands {read : TokenReader} (hread : read.IsReliable) {v : Vault}
    {k : TokenKeeper} (hv : v.Sound) (hk : start v = .ok k) (deeds : List (Int × Deed)) :
    let s := Ledger.after k deeds
    (∀ i ∈ s.issued, ∀ now,
      (∀ expected c, s.keeper.verify now (some i.token) (.text expected) read = .ok c ↔
        s.keeper.secret = i.secret ∧ read.Reads now i.token ∧ expected = i.purpose.word ∧ c = i.claims) ∧
      (i.time ≤ now → now < secondOf i.ending * 1000000 → read.Reads now i.token) ∧
      ((secondOf i.ending + 1) * 1000000 ≤ now → ¬ read.Reads now i.token)) ∧
    (∀ purpose time user roles, (∃ t, s.keeper.make purpose time (.text user) (.texts roles) = .ok t) ↔
      (∃ secret, s.keeper.secret = .text secret) ∧ isOnCalendar (time + purpose.lifetime) = true) ∧
    (s.keeper.vault.writable = true → ∀ now, s.keeper.Rotated (s.keeper.rotate now).1 (s.keeper.rotate now).2.2) ∧
    ((∀ d ∈ deeds, ¬ d.2.Handles "JWT_SECRET") → s.keeper.InStep) := by
  obtain ⟨rfl, hstep⟩ := (start_eq_ok_iff hv).mp hk
  have hkept := Ledger.kept_after hv deeds
  refine ⟨fun i hi now => ?_, ?_, rotated hkept.sound, Ledger.inStep_after hv hstep deeds⟩
  · have hfaithful := hkept.faithful i hi
    exact ⟨fun _ _ => hfaithful.verify_iff hread, hfaithful.reads hread, hfaithful.not_reads hread⟩
  · intro purpose time user roles
    simp only [make_eq_ok_iff]
    constructor
    · rintro ⟨t, hcal, secret, hsecret, -⟩
      exact ⟨⟨secret, hsecret⟩, hcal⟩
    · rintro ⟨⟨secret, hsecret⟩, hcal⟩
      exact ⟨_, hcal, secret, hsecret, rfl⟩

def twoSecrets : TokenKeeper where
  secret := .text "old"
  vault := {
    phrase := "phrase"
    key := "phrase"
    secrets := .object [("JWT_SECRET", .text "old"), ("NEW_JWT_SECRET", .text "new")] }

theorem sound_twoSecrets : twoSecrets.vault.Sound := ⟨_, rfl, by unfold Entries.Distinct; decide⟩

theorem start_twoSecrets : start twoSecrets.vault = .ok twoSecrets :=
  (start_eq_ok_iff sound_twoSecrets).mpr ⟨rfl, rfl, rfl⟩

def firstIssued : Issued where
  purpose := .access
  time := 0
  user := "u"
  roles := ["r"]
  secret := .text "old"
  token := signedFor .access 0 "u" ["r"] "old"

theorem after_firstIssued :
    Ledger.after twoSecrets [(0, .make .access "u" ["r"])] = { keeper := twoSecrets, issued := [firstIssued] } := by
  rfl

theorem issued_read_iff_secret_stands_rotation :
    TokenReader.wholeSeconds.IsReliable ∧ twoSecrets.vault.Sound ∧
      start twoSecrets.vault = .ok twoSecrets ∧
      ∃ i ∈ (Ledger.after twoSecrets [(0, .make .access "u" ["r"])]).issued,
        (∃ c, twoSecrets.verify 1799999999 (some i.token) (.text "access") = .ok c ∧
          c.subject = "u" ∧ c.roles = ["r"]) ∧
        (∀ c, twoSecrets.verify 1801000000 (some i.token) (.text "access") ≠ .ok c) ∧
        (∀ c, twoSecrets.verify 0 (some i.token) (.text "refresh") ≠ .ok c) ∧
        ∀ now c, (twoSecrets.rotate 0).2.2.verify now (some i.token) (.text "access") ≠ .ok c := by
  have hreader := TokenReader.isReliable_wholeSeconds
  have hv := sound_twoSecrets
  have hk := start_twoSecrets
  have hbefore := (issued_read_iff_secret_stands hreader hv hk [(0, .make .access "u" ["r"])]).1
  have hafter := (issued_read_iff_secret_stands hreader hv hk ([(0, .make .access "u" ["r"])] ++ [(0, .rotate)])).1
  rw [Ledger.after_append, after_firstIssued] at hafter
  rw [after_firstIssued] at hbefore ⊢
  have hread := hbefore firstIssued (List.mem_singleton_self _)
  refine ⟨hreader, hv, hk, firstIssued, List.mem_singleton_self _, ?_, ?_, ?_, ?_⟩
  · obtain ⟨hverify, hgood, -⟩ := hread 1799999999
    exact ⟨firstIssued.claims, (hverify _ _).mpr ⟨rfl, hgood (by decide) (by decide), rfl, rfl⟩, rfl, rfl⟩
  · intro c hc
    obtain ⟨hverify, -, hover⟩ := hread 1801000000
    exact hover (by decide) ((hverify _ c).mp hc).2.1
  · intro c hc
    exact absurd (((hread 0).1 _ c).mp hc).2.2.1 (by decide)
  · intro now c hc
    have hold := (((hafter firstIssued (List.mem_singleton_self _) now).1 _ c).mp hc).1
    have hnew : (twoSecrets.rotate 0).2.2.secret = .text "new" := (rotated hv rfl 0).secret_eq rfl rfl
    exact absurd (hnew.symm.trans hold) (by simp [firstIssued])

/-- With a reader that compares whole seconds, a token is read half a second after its end. -/
theorem read_after_end : ∃ read : TokenReader, read.IsReliable ∧
      start twoSecrets.vault = .ok twoSecrets ∧
      ∃ t c, twoSecrets.issueAccess 0 (.text "u") (.texts ["r"]) = .ok t ∧
        t.claims.lookup "exp" = some (.int 1800) ∧
        twoSecrets.verify 1800500000 (some t) (.text "access") read = .ok c := by
  have hreader := TokenReader.isReliable_wholeSeconds
  have hmade : twoSecrets.make .access 0 (.text "u") (.texts ["r"]) = .ok firstIssued.token :=
    make_eq_ok_iff.mpr ⟨by decide, "old", rfl, rfl⟩
  have hforce : InForce (secondOf 1800500000) firstIssued.token.claims :=
    (inForce_iff rfl rfl rfl rfl).mpr (by decide)
  have hread : TokenReader.wholeSeconds.Reads 1800500000 firstIssued.token :=
    TokenReader.wholeSeconds_eq_ok_iff.mpr ⟨rfl, rfl, hforce, rfl⟩
  exact ⟨_, hreader, start_twoSecrets, firstIssued.token, firstIssued.claims, hmade, rfl,
    (verify_signedFor_iff hreader).mpr ⟨rfl, hread, rfl, rfl⟩⟩

end TokenKeeper

end CodeAudit.Access

import Mathlib.Data.List.Basic
import CodeAudit.Access.Token

/-! What a request with a header comes to. A lapsed token is refused as such; other trouble with a
token ends in a fault. -/

namespace CodeAudit.Access

open Option

section Claims

variable {claims : Entries} {name : String} {second : Int} {check : Value → Except TokenFault Unit}
  {ε β : Type} {f : Unit → Except ε β} {x : Except ε Unit}

theorem then_eq_ok_iff {b : β} : x >>= f = .ok b ↔ x = .ok () ∧ f () = .ok b := by
  cases x <;> simp

theorem then_eq_error_iff {e : ε} :
    x >>= f = .error e ↔ x = .error e ∨ x = .ok () ∧ f () = .error e := by
  cases x <;> simp

theorem wholeClaim_eq_ok_iff {v : Value} {n : Int} : wholeClaim v = .ok n ↔ v.toInt = .ok n := by
  unfold wholeClaim
  split <;> simp_all

theorem wholeClaim_ne_expired (v : Value) : wholeClaim v ≠ .error .expired := by
  unfold wholeClaim
  split <;> simp

theorem checkClaim_eq_ok_iff :
    checkClaim claims name check = .ok () ↔ ∀ v, claims.lookup name = some v → check v = .ok () := by
  unfold checkClaim
  cases claims.lookup name <;> simp

theorem checkClaim_eq_error_iff {e : TokenFault} :
    checkClaim claims name check = .error e ↔ ∃ v, claims.lookup name = some v ∧ check v = .error e := by
  unfold checkClaim
  cases claims.lookup name <;> simp

def NumberClaim (claims : Entries) (name : String) (p : Int → Prop) : Prop :=
  ∀ v, claims.lookup name = some v → ∃ n, v.toInt = .ok n ∧ p n

structure Begun (second : Int) (claims : Entries) : Prop where
  issued : NumberClaim claims "iat" fun _ => True
  started : NumberClaim claims "nbf" (· ≤ second)

structure InForce (second : Int) (claims : Entries) : Prop extends Begun second claims where
  unexpired : NumberClaim claims "exp" (second ≤ ·)
  forAnyone : ∀ v, claims.lookup "aud" = some v → v.truthy = false

def HasEnded (second : Int) (claims : Entries) : Prop :=
  ∃ v, claims.lookup "exp" = some v ∧ ∃ n, v.toInt = .ok n ∧ n < second

section Checks

variable {v : Value} {bad : Int → Prop} [DecidablePred bad] {e : TokenFault}

theorem numberCheck_eq_ok_iff : (do if bad (← wholeClaim v) then throw e : Except TokenFault Unit) = .ok () ↔
      ∃ n, v.toInt = .ok n ∧ ¬ bad n := by
  rw [bind_eq_ok_iff]
  refine exists_congr fun n => ?_
  rw [wholeClaim_eq_ok_iff]
  by_cases hn : bad n <;> simp

theorem numberCheck_eq_expired_iff :
    (do if bad (← wholeClaim v) then throw e : Except TokenFault Unit) = .error .expired ↔
      e = .expired ∧ ∃ n, v.toInt = .ok n ∧ bad n := by
  rw [bind_eq_error_iff, or_iff_right (wholeClaim_ne_expired v), ← exists_and_left]
  refine exists_congr fun n => ?_
  rw [wholeClaim_eq_ok_iff]
  by_cases hn : bad n
  · simp [hn, and_comm]
  · simp [hn]

theorem issuedCheck_eq_ok_iff :
    (do let _ ← wholeClaim v : Except TokenFault Unit) = .ok () ↔ ∃ n, v.toInt = .ok n ∧ True := by
  rw [bind_eq_ok_iff]
  simp [wholeClaim_eq_ok_iff]

theorem issuedCheck_ne_expired (v : Value) :
    (do let _ ← wholeClaim v : Except TokenFault Unit) ≠ .error .expired := by
  simp [bind_eq_error_iff, wholeClaim_ne_expired]

theorem audienceCheck_eq_ok_iff :
    (if v.truthy then .error .invalid else .ok () : Except TokenFault Unit) = .ok () ↔ v.truthy = false := by
  cases v.truthy <;> simp

theorem audienceCheck_ne_expired (v : Value) :
    (if v.truthy then .error .invalid else .ok () : Except TokenFault Unit) ≠ .error .expired := by
  cases v.truthy <;> simp

end Checks

theorem begun_iff : (checkClaim claims "iat" (fun v => do let _ ← wholeClaim v) = .ok () ∧
      checkClaim claims "nbf" (fun v => do if second < (← wholeClaim v) then throw .invalid) = .ok ()) ↔
      Begun second claims := by
  simp only [checkClaim_eq_ok_iff, issuedCheck_eq_ok_iff, numberCheck_eq_ok_iff, Int.not_lt]
  exact ⟨fun ⟨hissued, hstarted⟩ => ⟨hissued, hstarted⟩, fun h => ⟨h.issued, h.started⟩⟩

theorem checkClaims_eq_ok_iff : checkClaims second claims = .ok () ↔ InForce second claims := by
  unfold checkClaims
  rw [then_eq_ok_iff, then_eq_ok_iff, then_eq_ok_iff, ← and_assoc, begun_iff]
  simp only [checkClaim_eq_ok_iff, numberCheck_eq_ok_iff, audienceCheck_eq_ok_iff, Int.not_lt]
  exact ⟨fun ⟨hbegun, hend, haud⟩ => ⟨hbegun, hend, haud⟩, fun h => ⟨h.toBegun, h.unexpired, h.forAnyone⟩⟩

theorem checkClaims_eq_expired_iff :
    checkClaims second claims = .error .expired ↔ Begun second claims ∧ HasEnded second claims := by
  have hissued : checkClaim claims "iat" (fun v => do let _ ← wholeClaim v) ≠ .error .expired := by
    simp only [ne_eq, checkClaim_eq_error_iff, issuedCheck_ne_expired, and_false, exists_false, not_false_eq_true]
  have hstarted : checkClaim claims "nbf" (fun v => do if second < (← wholeClaim v) then throw .invalid) ≠
      .error .expired := by
    simp only [ne_eq, checkClaim_eq_error_iff, numberCheck_eq_expired_iff, reduceCtorEq, false_and,
      and_false, exists_false, not_false_eq_true]
  have haud : checkClaim claims "aud" (fun v => if v.truthy then .error .invalid else .ok ()) ≠
      .error .expired := by
    simp only [ne_eq, checkClaim_eq_error_iff, audienceCheck_ne_expired, and_false, exists_false, not_false_eq_true]
  unfold checkClaims
  rw [then_eq_error_iff, or_iff_right hissued, then_eq_error_iff, or_iff_right hstarted, then_eq_error_iff,
    ← and_assoc, begun_iff]
  simp only [haud, and_false, or_false, checkClaim_eq_error_iff, numberCheck_eq_expired_iff, true_and, HasEnded]

theorem inForce_iff {ending issued : Int} (hexp : claims.lookup "exp" = some (.int ending))
    (hiat : claims.lookup "iat" = some (.int issued)) (hnbf : claims.lookup "nbf" = none)
    (haud : claims.lookup "aud" = none) : InForce second claims ↔ second ≤ ending := by
  constructor
  · intro h
    obtain ⟨n, hn, hle⟩ := h.unexpired _ hexp
    cases hn
    exact hle
  · intro hle
    refine ⟨⟨?_, by simp [NumberClaim, hnbf]⟩, ?_, by simp [haud]⟩
    · intro v hv
      exact ⟨issued, by rw [Option.some.inj (hv.symm.trans hiat)]; rfl, trivial⟩
    · intro v hv
      exact ⟨ending, by rw [Option.some.inj (hv.symm.trans hexp)]; rfl, hle⟩

end Claims

namespace SignedToken

variable (t : SignedToken) (now : Int) {secret : String}

theorem read_of_mismatch (h : ¬ (t.algorithm = "HS256" ∧ t.secret = secret)) :
    t.read now secret = .error .invalid := by
  have hbad : (!(["HS256"].contains t.algorithm) || t.secret ≠ secret) := by grind
  unfold read
  rw [if_pos hbad]
  rfl

theorem read_of_match (halgorithm : t.algorithm = "HS256") (hsecret : t.secret = secret) :
    t.read now secret = (checkClaims (secondOf now) t.claims).map fun _ => t.claims := by
  have hgood : ¬ (!(["HS256"].contains t.algorithm) || decide (t.secret ≠ secret)) := by simp [halgorithm, hsecret]
  unfold read
  rw [if_neg hgood]
  cases checkClaims (secondOf now) t.claims <;> rfl

end SignedToken

variable {roles : List String} {user : String}

namespace TokenKeeper

variable {k : TokenKeeper} {now : Int} {t : SignedToken} {entries : Entries} {c : TokenClaims}

def Signed (k : TokenKeeper) (t : SignedToken) : Prop := t.algorithm = "HS256" ∧ k.secret = .text t.secret

structure Lapsed (k : TokenKeeper) (now : Int) (t : SignedToken) : Prop where
  signed : k.Signed t
  begun : Begun (secondOf now) t.claims
  ended : HasEnded (secondOf now) t.claims

structure Grants (k : TokenKeeper) (now : Int) (t : SignedToken) (user : String) (roles : List String) :
    Prop where
  signed : k.Signed t
  inForce : InForce (secondOf now) t.claims
  kind : claim t.claims "type" textClaim = some "access"
  subject : claim t.claims "sub" textClaim = some user
  listed : claim t.claims "roles" textsClaim = some roles
  ending : (claim t.claims "exp" momentOfClaim).isSome
  issued : (claim t.claims "iat" momentOfClaim).isSome

theorem readWith_of_not_signed (h : ¬ k.Signed t) : t.readWith now k.secret = .error .invalid := by
  unfold SignedToken.readWith
  split
  next s hs => exact t.read_of_mismatch now fun hm => h ⟨hm.1, by rw [hs, hm.2]⟩
  next => rfl

theorem readWith_of_signed (h : k.Signed t) :
    t.readWith now k.secret = (checkClaims (secondOf now) t.claims).map fun _ => t.claims := by
  rw [h.2]
  exact t.read_of_match now h.1 rfl

theorem readWith_eq_ok_iff : t.readWith now k.secret = .ok entries ↔
      k.Signed t ∧ InForce (secondOf now) t.claims ∧ entries = t.claims := by
  by_cases hs : k.Signed t
  · rw [readWith_of_signed hs, ← checkClaims_eq_ok_iff]
    cases checkClaims (secondOf now) t.claims <;> simp [Except.map, hs, eq_comm]
  · simp [readWith_of_not_signed hs, hs]

theorem readWith_eq_expired_iff : t.readWith now k.secret = .error .expired ↔ k.Lapsed now t := by
  by_cases hs : k.Signed t
  · have hlapsed : k.Lapsed now t ↔ checkClaims (secondOf now) t.claims = .error .expired := by
      rw [checkClaims_eq_expired_iff]
      exact ⟨fun h => ⟨h.begun, h.ended⟩, fun h => ⟨hs, h.1, h.2⟩⟩
    rw [readWith_of_signed hs, hlapsed]
    cases checkClaims (secondOf now) t.claims <;> simp [Except.map]
  · rw [readWith_of_not_signed hs]
    simp only [Except.error.injEq, reduceCtorEq, false_iff]
    exact fun h => hs h.signed

theorem ofEntries_eq_some_iff : TokenClaims.ofEntries entries = some c ↔
      claim entries "sub" textClaim = some c.subject ∧ claim entries "exp" momentOfClaim = some c.expires ∧
        claim entries "iat" momentOfClaim = some c.issued ∧ claim entries "type" textClaim = some c.kind ∧
          claim entries "roles" textsClaim = some c.roles := by
  obtain ⟨subject, expires, issued, kind, roles⟩ := c
  simp only [TokenClaims.ofEntries, bind_eq_bind, bind_eq_some_iff, pure_def,
    Option.some.injEq, TokenClaims.mk.injEq]
  constructor
  · rintro ⟨_, hsub, _, hexp, _, hiat, _, hkind, _, hroles, rfl, rfl, rfl, rfl, rfl⟩
    exact ⟨hsub, hexp, hiat, hkind, hroles⟩
  · rintro ⟨hsub, hexp, hiat, hkind, hroles⟩
    exact ⟨_, hsub, _, hexp, _, hiat, _, hkind, _, hroles, rfl, rfl, rfl, rfl, rfl⟩

theorem Grants.ofEntries (h : k.Grants now t user roles) :
    ∃ c, TokenClaims.ofEntries t.claims = some c ∧ c.kind = "access" ∧ c.subject = user ∧ c.roles = roles := by
  obtain ⟨expires, hexp⟩ := isSome_iff_exists.mp h.ending
  obtain ⟨issued, hiat⟩ := isSome_iff_exists.mp h.issued
  refine ⟨⟨user, expires, issued, "access", roles⟩, ?_, rfl, rfl, rfl⟩
  exact ofEntries_eq_some_iff.mpr ⟨h.subject, hexp, hiat, h.kind, h.listed⟩

theorem grants_of_ofEntries (hs : k.Signed t) (hf : InForce (secondOf now) t.claims)
    (hc : TokenClaims.ofEntries t.claims = some c) (hkind : c.kind = "access") :
    k.Grants now t c.subject c.roles := by
  obtain ⟨hsub, hexp, hiat, htype, hroles⟩ := ofEntries_eq_some_iff.mp hc
  exact ⟨hs, hf, hkind ▸ htype, hsub, hroles, isSome_of_eq_some hexp, isSome_of_eq_some hiat⟩

theorem verify_of_grants (h : k.Grants now t user roles) :
    ∃ c, k.verify now (some t) (.text "access") = .ok c ∧ c.subject = user ∧ c.roles = roles := by
  have hread := readWith_eq_ok_iff.mpr ⟨h.signed, h.inForce, rfl⟩
  obtain ⟨c, hc, hkind, huser⟩ := h.ofEntries
  exact ⟨c, by simp [verify, hread, hc, hkind, Value.equals], huser⟩

theorem verify_of_lapsed (h : k.Lapsed now t) :
    k.verify now (some t) (.text "access") = .error (.refused 401 "Token expiré") := by
  simp [verify, readWith_eq_expired_iff.mpr h]

theorem verify_of_useless (hl : ¬ k.Lapsed now t) (hg : ∀ user roles, ¬ k.Grants now t user roles) :
    k.verify now (some t) (.text "access") = .error unknownFault := by
  unfold verify
  rcases hread : t.readWith now k.secret with e | entries
  · cases e with
    | expired => exact absurd (readWith_eq_expired_iff.mp hread) hl
    | invalid => simp [hread]
    | broken f => simp [hread]
  · obtain ⟨hs, hf, rfl⟩ := readWith_eq_ok_iff.mp hread
    rcases hc : TokenClaims.ofEntries t.claims with _ | c
    · simp [hread, hc]
    · have hkind : c.kind ≠ "access" := fun hkind => hg _ _ (grants_of_ofEntries hs hf hc hkind)
      simp [hread, hc, hkind, Value.equals]

end TokenKeeper

section Header

variable {header : Option String} {text detail : String}

def Bears (header : Option String) (text : String) : Prop :=
  ∃ h scheme, header = some h ∧ Text.words h = [scheme, text] ∧ lowerText scheme = "bearer"

inductive Unreadable : Option String → String → Prop where
  | missing : Unreadable none "Token manquant"
  | empty : Unreadable (some "") "Token manquant"
  | parts {h : String} : h ≠ "" → (Text.words h).length ≠ 2 → Unreadable (some h) "Format de token invalide"
  | scheme {h scheme text : String} : Text.words h = [scheme, text] → lowerText scheme ≠ "bearer" →
      Unreadable (some h) "Schéma d'authentification invalide"

theorem ne_empty_of_words {h scheme : String} (hwords : Text.words h = [scheme, text]) : h ≠ "" := by
  rintro rfl
  have hnone : Text.words "" = [] := rfl
  exact absurd (hnone.symm.trans hwords) (by simp)

theorem bears_or_unreadable (header : Option String) :
    (∃ text, Bears header text) ∨ ∃ detail, Unreadable header detail := by
  rcases header with _ | h
  · exact .inr ⟨_, .missing⟩
  · by_cases hempty : h = ""
    · exact .inr ⟨_, hempty ▸ Unreadable.empty⟩
    · by_cases hlen : (Text.words h).length = 2
      · obtain ⟨scheme, text, hwords⟩ := List.length_eq_two.mp hlen
        by_cases hscheme : lowerText scheme = "bearer"
        · exact .inl ⟨text, h, scheme, rfl, hwords, hscheme⟩
        · exact .inr ⟨_, .scheme hwords hscheme⟩
      · exact .inr ⟨_, .parts hempty hlen⟩

end Header

namespace TokenKeeper

variable {k : TokenKeeper} {now : Int} {find : String → Option SignedToken} {header : Option String}
  {text detail : String} {t : SignedToken}

theorem authenticate_two {h scheme : String} (hwords : Text.words h = [scheme, text]) :
    k.authenticate now find (.text h) = if lowerText scheme = "bearer" then
        (k.verify now (find text) (.text "access")).map fun c => (c.subject, c.roles)
      else .error (.refused 401 "Schéma d'authentification invalide") := by
  have hgiven : ¬ (!(Value.text h).truthy) := by simp [Value.truthy, ne_empty_of_words hwords]
  unfold authenticate
  rw [if_neg hgiven]
  simp only [Value.textFor, ok_bind, hwords]
  by_cases hscheme : lowerText scheme = "bearer"
  · rw [if_pos hscheme, if_neg (not_not_intro hscheme)]
    cases k.verify now (find text) (.text "access") <;> rfl
  · rw [if_neg hscheme, if_pos hscheme]
    rfl

variable (h : Bears header text)

include h

theorem authenticate_of_bears : k.authenticate now find (.ofText? header) =
      (k.verify now (find text) (.text "access")).map fun c => (c.subject, c.roles) := by
  obtain ⟨h, scheme, rfl, hwords, hscheme⟩ := h
  exact (authenticate_two hwords).trans (if_pos hscheme)

omit h in
theorem authenticate_of_unreadable (h : Unreadable header detail) :
    k.authenticate now find (.ofText? header) = .error (.refused 401 detail) := by
  cases h with
  | missing => rfl
  | empty => rfl
  | @parts h hne hlen =>
    have hgiven : ¬ (!(Value.text h).truthy) := by simp [Value.truthy, hne]
    change k.authenticate now find (.text h) = _
    unfold authenticate
    rw [if_neg hgiven]
    simp only [Value.textFor, ok_bind]
    split
    · rename_i hwords
      exact absurd (by simp [hwords]) hlen
    · rfl
  | scheme hwords hscheme => exact (authenticate_two hwords).trans (if_neg hscheme)

theorem authenticate_of_grants (hfind : find text = some t) (hgrants : k.Grants now t user roles) :
    k.authenticate now find (.ofText? header) = .ok (user, roles) := by
  obtain ⟨c, hc, rfl, rfl⟩ := verify_of_grants hgrants
  rw [authenticate_of_bears h, hfind, hc]
  rfl

theorem authenticate_of_lapsed (hfind : find text = some t) (hlapsed : k.Lapsed now t) :
    k.authenticate now find (.ofText? header) = .error (.refused 401 "Token expiré") := by
  rw [authenticate_of_bears h, hfind, verify_of_lapsed hlapsed]
  rfl

def Useless (k : TokenKeeper) (now : Int) (token : Option SignedToken) : Prop :=
  ∀ t, token = some t → ¬ k.Lapsed now t ∧ ∀ user roles, ¬ k.Grants now t user roles

theorem authenticate_of_useless (huseless : k.Useless now (find text)) :
    k.authenticate now find (.ofText? header) = .error unknownFault := by
  rw [authenticate_of_bears h]
  rcases hfind : find text with _ | t
  · rfl
  · obtain ⟨hl, hg⟩ := huseless t hfind
    rw [verify_of_useless hl hg]
    rfl

omit h

theorem token_cases (k : TokenKeeper) (now : Int) (token : Option SignedToken) :
    (∃ t user roles, token = some t ∧ k.Grants now t user roles) ∨
      (∃ t, token = some t ∧ k.Lapsed now t) ∨ k.Useless now token := by
  by_cases hg : ∃ t user roles, token = some t ∧ k.Grants now t user roles
  · exact .inl hg
  · by_cases hl : ∃ t, token = some t ∧ k.Lapsed now t
    · exact .inr (.inl hl)
    · exact .inr (.inr fun t ht => ⟨fun h => hl ⟨t, ht, h⟩, fun user roles h => hg ⟨t, user, roles, ht, h⟩⟩)

theorem authenticate_cases (k : TokenKeeper) (now : Int) (find : String → Option SignedToken)
    (header : Option String) :
    (∃ text t user roles, Bears header text ∧ find text = some t ∧ k.Grants now t user roles ∧
      k.authenticate now find (.ofText? header) = .ok (user, roles)) ∨ (∃ detail, Unreadable header detail ∧
      k.authenticate now find (.ofText? header) = .error (.refused 401 detail)) ∨
    (∃ text t, Bears header text ∧ find text = some t ∧ k.Lapsed now t ∧
      k.authenticate now find (.ofText? header) = .error (.refused 401 "Token expiré")) ∨
    (∃ text, Bears header text ∧ k.Useless now (find text) ∧
      k.authenticate now find (.ofText? header) = .error unknownFault) := by
  rcases bears_or_unreadable header with ⟨text, hbears⟩ | ⟨detail, hno⟩
  · rcases k.token_cases now (find text) with ⟨t, user, roles, ht, hg⟩ | ⟨t, ht, hl⟩ | hu
    · exact .inl ⟨text, t, user, roles, hbears, ht, hg, authenticate_of_grants hbears ht hg⟩
    · exact .inr (.inr (.inl ⟨text, t, hbears, ht, hl, authenticate_of_lapsed hbears ht hl⟩))
    · exact .inr (.inr (.inr ⟨text, hbears, hu, authenticate_of_useless hbears hu⟩))
  · exact .inr (.inl ⟨detail, hno, authenticate_of_unreadable hno⟩)

/-- A request gets the user and the roles of a good token for access. It is refused if it brings no
token or a lapsed one. Any other token ends it in a fault that is no refusal. -/
theorem authenticate_outcomes (k : TokenKeeper) (now : Int) (find : String → Option SignedToken)
    (header : Option String) :
    (∀ user roles, k.authenticate now find (.ofText? header) = .ok (user, roles) ↔
      ∃ text t, Bears header text ∧ find text = some t ∧ k.Grants now t user roles) ∧
    ∀ f, k.authenticate now find (.ofText? header) = .error f ↔
      (∃ detail, f = .refused 401 detail ∧ Unreadable header detail) ∨
      (f = .refused 401 "Token expiré" ∧ ∃ text t, Bears header text ∧ find text = some t ∧
        k.Lapsed now t) ∨
      (f = unknownFault ∧ ∃ text, Bears header text ∧ k.Useless now (find text)) := by
  have hcases := k.authenticate_cases now find header
  refine ⟨fun user roles => ⟨fun h => ?_, ?_⟩, fun f => ⟨fun h => ?_, ?_⟩⟩
  · rw [h] at hcases
    rcases hcases with ⟨text, t, _, _, hbears, ht, hg, hok⟩ | ⟨_, _, hok⟩ | ⟨_, _, _, _, _, hok⟩ | ⟨_, _, _, hok⟩ <;>
      cases hok
    exact ⟨text, t, hbears, ht, hg⟩
  · rintro ⟨text, t, hbears, ht, hg⟩
    exact authenticate_of_grants hbears ht hg
  · rw [h] at hcases
    rcases hcases with ⟨_, _, _, _, _, _, _, he⟩ | ⟨detail, hno, he⟩ | ⟨text, t, hbears, ht, hl, he⟩ |
      ⟨text, hbears, hu, he⟩ <;> cases he
    · exact .inl ⟨detail, rfl, hno⟩
    · exact .inr (.inl ⟨rfl, text, t, hbears, ht, hl⟩)
    · exact .inr (.inr ⟨rfl, text, hbears, hu⟩)
  · rintro (⟨detail, rfl, hno⟩ | ⟨rfl, text, t, hbears, ht, hl⟩ | ⟨rfl, text, hbears, hu⟩)
    · exact authenticate_of_unreadable hno
    · exact authenticate_of_lapsed hbears ht hl
    · exact authenticate_of_useless hbears hu

/-- A token for new tokens and a text that is no token end in a fault that is no refusal. -/
theorem unrefused_request :
    ∃ (k : TokenKeeper) (t : SignedToken), k.issueRefresh 0 (.text "u") (.list []) = .ok t ∧
      ∀ token ∈ ["$0", "x.y.z"], ∃ f,
        k.authenticate 0 (TokenList.find [t]) (.ofText? (some ("Bearer " ++ token))) = .error f ∧
          ∀ status detail, f ≠ .refused status detail := by
  let k : TokenKeeper := { secret := .text "key", vault := { phrase := "x", key := "x", secrets := .object [] } }
  refine ⟨k, _, rfl, ?_⟩
  intro token htoken
  refine ⟨unknownFault, ?_, fun _ _ => nofun⟩
  simp only [List.mem_cons, List.not_mem_nil, or_false] at htoken
  rcases htoken with rfl | rfl
  · have hbears : Bears (some ("Bearer " ++ "$0")) "$0" :=
      ⟨_, "Bearer", rfl, by decide, by decide⟩
    refine authenticate_of_useless hbears ?_
    intro t ht
    cases ht
    constructor
    · rintro ⟨-, -, v, hv, n, hn, hlt⟩
      cases hv
      cases hn
      exact absurd hlt (by decide)
    · intro user roles h
      exact absurd h.kind (by decide)
  · have hbears : Bears (some ("Bearer " ++ "x.y.z")) "x.y.z" :=
      ⟨_, "Bearer", rfl, by decide, by decide⟩
    refine authenticate_of_useless hbears ?_
    intro t ht
    cases ht

end TokenKeeper

end CodeAudit.Access

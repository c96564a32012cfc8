import CodeAudit.Proofs.Authentication
import CodeAudit.Server

/-! Which requests the guard of the server passes on. What a token is for is not looked at, so every
kind of token opens every path. -/

namespace CodeAudit.Server

open Access

namespace Shield

variable {s : Shield} {path : String}

def Guards (s : Shield) (path : String) : Prop :=
  ∀ v ∈ s.excluded, ∃ start, v = .text start ∧ Text.startsWith start path = false

theorem isExcluded_of_guards (h : s.Guards path) : s.isExcluded path = .ok false := by
  unfold Guards at h
  unfold isExcluded
  generalize s.excluded = excluded at h
  induction excluded with
  | nil => rfl
  | cons v rest ih =>
    obtain ⟨start, rfl, hstart⟩ := h v (by simp)
    simp only [List.forIn_cons, hstart]
    exact ih fun w hw => h w (by simp [hw])

end Shield

end CodeAudit.Server

namespace CodeAudit.Access.TokenService

variable {tokens : TokenService} {now : Int} {t : SignedToken}

structure Takes (tokens : TokenService) (now : Int) (t : SignedToken) : Prop where
  algorithm : t.algorithm = "HS256"
  secret : t.secret = tokens.secret
  inForce : InForce (secondOf now) t.claims
  claims : t.claims ≠ []

theorem decode_eq (tokens : TokenService) (now : Int) (t : SignedToken) : tokens.decode now (some t) .null ["HS256"] =
      match t.read now tokens.secret with
      | .ok claims => .ok (some claims)
      | .error (.broken f) => .error f
      | .error _ => .ok none := rfl

theorem decode_of_takes (h : tokens.Takes now t) :
    tokens.decode now (some t) .null ["HS256"] = .ok (some t.claims) := by
  rw [decode_eq, t.read_of_match now h.algorithm h.secret, checkClaims_eq_ok_iff.mpr h.inForce]
  rfl

theorem decode_of_not_takes (h : ¬ tokens.Takes now t) :
    (∃ f, tokens.decode now (some t) .null ["HS256"] = .error f) ∨
      tokens.decode now (some t) .null ["HS256"] = .ok none ∨
      tokens.decode now (some t) .null ["HS256"] = .ok (some []) := by
  rw [decode_eq]
  by_cases hm : t.algorithm = "HS256" ∧ t.secret = tokens.secret
  · rw [t.read_of_match now hm.1 hm.2]
    cases hc : checkClaims (secondOf now) t.claims with
    | error f =>
      cases f with
      | expired => exact .inr (.inl rfl)
      | invalid => exact .inr (.inl rfl)
      | broken f => exact .inl ⟨f, rfl⟩
    | ok u =>
      have hnone : t.claims = [] := by
        by_contra hclaims
        exact h ⟨hm.1, hm.2, checkClaims_eq_ok_iff.mp hc, hclaims⟩
      exact .inr (.inr (by simp [Except.map, hnone]))
  · rw [t.read_of_mismatch now hm]
    exact .inr (.inl rfl)

end CodeAudit.Access.TokenService

namespace CodeAudit.Server.Shield

open Access

variable {s : Shield} {tokens issuer : TokenService} {now : Int} {find : String → Option SignedToken} {path : String}
  {header : Option String} {text : String} {t : SignedToken}

def BringsTaken (tokens : TokenService) (now : Int) (find : String → Option SignedToken)
    (header : Option String) : Prop :=
  ∃ text t, header.bind bearer = some text ∧ find text = some t ∧ tokens.Takes now t

def PassesOn (s : Shield) (tokens : TokenService) (now : Int) (find : String → Option SignedToken) (path : String)
    (header : Option String) : Prop :=
  ∀ body, s.handle tokens now find path header (.ok body) = { status := 200, body, headers := s.headers }

def refusal : Response := .detail 401 "Identifiants invalides"

def failure : Response := .detail 500 "Erreur interne du serveur"

def TurnsAway (s : Shield) (tokens : TokenService) (now : Int) (find : String → Option SignedToken) (path : String)
    (header : Option String) : Prop :=
  (∀ next, s.handle tokens now find path header next = refusal) ∨
    ∀ next, s.handle tokens now find path header next = failure

theorem handle_eq (hpath : s.Guards path) (next : Outcome Value) : s.handle tokens now find path header next =
      match header.bind bearer with
      | none => refusal
      | some text =>
        match tokens.decode now (find text) .null ["HS256"] with
        | .error _ => failure
        | .ok none | .ok (some []) => refusal
        | .ok (some _) =>
          match next with
          | .ok body => { status := 200, body, headers := s.headers }
          | .error _ => failure := by
  unfold handle pass
  rw [isExcluded_of_guards hpath]
  cases header.bind bearer with
  | none => rfl
  | some text =>
    simp only [ok_bind]
    cases tokens.decode now (find text) .null ["HS256"] with
    | error f => rfl
    | ok claims =>
      rcases claims with _ | _ | ⟨c, rest⟩
      · rfl
      · rfl
      · cases next <;> rfl

theorem passesOn_of_bringsTaken (hpath : s.Guards path) (h : BringsTaken tokens now find header) :
    s.PassesOn tokens now find path header := by
  obtain ⟨text, t, htext, hfind, ht⟩ := h
  intro body
  obtain ⟨c, rest, hclaims⟩ := List.exists_cons_of_ne_nil ht.claims
  simp only [handle_eq hpath, htext, hfind, TokenService.decode_of_takes ht, hclaims]

theorem turnsAway_of_not_bringsTaken (hpath : s.Guards path) (h : ¬ BringsTaken tokens now find header) :
    s.TurnsAway tokens now find path header := by
  cases htext : header.bind bearer with
  | none => exact .inl fun next => by simp only [handle_eq hpath, htext]
  | some text =>
    cases hfind : find text with
    | none =>
      have hd : tokens.decode now none .null ["HS256"] = .ok none := rfl
      exact .inl fun next => by simp only [handle_eq hpath, htext, hfind, hd]
    | some t =>
      have ht : ¬ tokens.Takes now t := fun ht => h ⟨text, t, htext, hfind, ht⟩
      rcases TokenService.decode_of_not_takes ht with ⟨f, hd⟩ | hd | hd
      · exact .inr fun next => by simp only [handle_eq hpath, htext, hfind, hd]
      · exact .inl fun next => by simp only [handle_eq hpath, htext, hfind, hd]
      · exact .inl fun next => by simp only [handle_eq hpath, htext, hfind, hd]

theorem PassesOn.not_turnsAway (h : s.PassesOn tokens now find path header) :
    ¬ s.TurnsAway tokens now find path header := by
  have hstatus : (s.handle tokens now find path header (.ok .null)).status = 200 := by rw [h .null]
  rintro (hr | hr) <;> rw [hr] at hstatus <;> exact absurd hstatus (by decide)

theorem passesOn_iff (hpath : s.Guards path) :
    s.PassesOn tokens now find path header ↔ BringsTaken tokens now find header := by
  refine ⟨fun h => ?_, passesOn_of_bringsTaken hpath⟩
  by_contra hnot
  exact h.not_turnsAway (turnsAway_of_not_bringsTaken hpath hnot)

def endOf (time lifetime : Int) : Int := time + if lifetime = 0 then TokenUse.access.lifetime else lifetime

def madeFor (issuer : TokenService) (time : Int) (use : TokenUse) (subject : Value) (lifetime : Int) :
    SignedToken where
  claims := [
    ("sub", subject), ("type", .text use.word), ("exp", .int (secondOf (endOf time lifetime))),
    ("iat", .int (secondOf time)), ("jti", .text ("id" ++ natText (issuer.made + 1)))]
  secret := issuer.secret

theorem issue_eq (issuer : TokenService) (time : Int) (use : TokenUse) (subject : Value) (lifetime : Int) :
    (issuer.issue time use subject lifetime).1 =
      if Time.isOnCalendar (endOf time lifetime) then .ok (madeFor issuer time use subject lifetime)
      else .error (.overflow "date value out of range") := by
  have hend : Time.later time (if lifetime = 0 then TokenUse.access.lifetime else lifetime) =
      if Time.isOnCalendar (endOf time lifetime) then .ok (endOf time lifetime)
      else .error (.overflow "date value out of range") := rfl
  simp only [TokenService.issue, TokenService.create, hend]
  by_cases hcal : Time.isOnCalendar (endOf time lifetime)
  · simp only [if_pos hcal]
    rfl
  · simp only [if_neg hcal]

theorem eq_madeFor_of_issue {time lifetime : Int} {use : TokenUse} {subject : Value}
    (h : (issuer.issue time use subject lifetime).1 = .ok t) : t = madeFor issuer time use subject lifetime := by
  rw [issue_eq] at h
  split_ifs at h
  exact (Except.ok.inj h).symm

theorem takes_madeFor_iff (hsecret : issuer.secret = tokens.secret) (time : Int)
    (use : TokenUse) (subject : Value) (lifetime : Int) :
    tokens.Takes now (madeFor issuer time use subject lifetime) ↔ secondOf now ≤ secondOf (endOf time lifetime) := by
  have hforce : InForce (secondOf now) (madeFor issuer time use subject lifetime).claims ↔
      secondOf now ≤ secondOf (endOf time lifetime) := inForce_iff rfl rfl rfl rfl
  exact ⟨fun h => hforce.mp h.inForce, fun h => ⟨rfl, hsecret, hforce.mpr h, by simp [madeFor]⟩⟩

/-- On a guarded path a request is passed on if and only if it brings a token that the server
takes. So every token that the server made, whatever for, opens the path up to the second in
which it ends. -/
theorem passesOn_iff_bringsTaken (s : Shield) (tokens : TokenService) (now : Int)
    (find : String → Option SignedToken) (path : String) (hpath : s.Guards path)
    (header : Option String) :
    (s.PassesOn tokens now find path header ↔ BringsTaken tokens now find header) ∧
    (s.TurnsAway tokens now find path header ↔ ¬ BringsTaken tokens now find header) ∧
    ∀ (issuer : TokenService) (time : Int) (use : TokenUse) (subject : Value) (lifetime : Int)
      (t : SignedToken)
      (text : String), issuer.secret = tokens.secret →
        (issuer.issue time use subject lifetime).1 = .ok t →
      header.bind bearer = some text → find text = some t →
      (s.PassesOn tokens now find path header ↔ secondOf now ≤ secondOf (endOf time lifetime)) := by
  have hiff : s.PassesOn tokens now find path header ↔ BringsTaken tokens now find header := passesOn_iff hpath
  refine ⟨hiff, ⟨fun haway hbrings => ?_, turnsAway_of_not_bringsTaken hpath⟩, ?_⟩
  · exact (hiff.mpr hbrings).not_turnsAway haway
  · intro issuer time use subject lifetime t text hsecret hissue htext hfind
    obtain rfl := eq_madeFor_of_issue hissue
    rw [hiff, ← takes_madeFor_iff hsecret time use subject lifetime]
    constructor
    · rintro ⟨text', t, htext', hfind', ht⟩
      obtain rfl := Option.some.inj (htext'.symm.trans htext)
      obtain rfl := Option.some.inj (hfind'.symm.trans hfind)
      exact ht
    · exact fun ht => ⟨text, _, htext, hfind, ht⟩

theorem passesOn_iff_bringsTaken_reset : ∃ (t : SignedToken) (header : String),
      (TokenService.issue {} 0 .reset (.text "a@b") TokenUse.reset.lifetime).1 = .ok t ∧
      Guards { excluded := [.text "/docs"] } "/doc" ∧
      PassesOn { excluded := [.text "/docs"] } {} 86400999999 (TokenList.find [t]) "/doc"
        (some header) := by
  have hpath : Guards { excluded := [.text "/docs"] } "/doc" := by
    intro v hv
    exact ⟨"/docs", List.mem_singleton.mp hv, by decide⟩
  have hissue : (TokenService.issue {} 0 .reset (.text "a@b") TokenUse.reset.lifetime).1 =
      .ok (madeFor {} 0 .reset (.text "a@b") TokenUse.reset.lifetime) := rfl
  have htext : (some "Bearer $0").bind bearer = some "$0" := by decide
  have h := (passesOn_iff_bringsTaken _ {} 86400999999 (TokenList.find [madeFor {} 0 .reset (.text "a@b") _]) "/doc"
    hpath (some "Bearer $0")).2.2 {} 0 .reset (.text "a@b") _ _ "$0" rfl hissue htext rfl
  exact ⟨_, _, hissue, hpath, h.mpr (by decide)⟩

/-- Tokens made to get new tokens, to reset or to verify pass as tokens for access. -/
theorem passesOn_without_access :
    ∃ made : TokenUse → SignedToken, ∀ use ∈ [TokenUse.refresh, .reset, .verify],
      (TokenService.issue {} 0 use (.text "u") use.lifetime).1 = .ok (made use) ∧
      (made use).claims.lookup "type" = some (.text use.word) ∧ use.word ≠ "access" ∧
      PassesOn {} {} 0 (TokenList.find [made use]) "/a" (some "Bearer $0") := by
  refine ⟨fun use => madeFor {} 0 use (.text "u") use.lifetime, fun use huse => ⟨?_, rfl, ?_, ?_⟩⟩
  · cases use <;> rfl
  · revert use
    decide
  · have hpath : Guards {} "/a" := fun v hv => absurd hv (by simp)
    have htext : (some "Bearer $0").bind bearer = some "$0" := by decide
    refine passesOn_of_bringsTaken hpath ⟨"$0", _, htext, rfl, ?_⟩
    rw [takes_madeFor_iff rfl]
    cases use <;> decide

end CodeAudit.Server.Shield

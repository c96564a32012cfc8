import Mathlib.Data.List.Infix
import CodeAudit.Config.Schema
import CodeAudit.Guard
import CodeAudit.Proofs.Dictionary

/-! Which requests the guard passes on. It reads two settings that the protection of a server does
not have. -/

namespace CodeAudit

open List Config

theorem Value.greater_nat_int (m : Nat) (n : Int) : greater (.nat m) (.int n) = .ok (decide (n < m)) := by
  simp only [← Int.compare_eq_gt, greater, nat, order?, orderNum, number?, Num.compare?]
  cases compare (m : Int) n <;> rfl

variable {r : Request} {e : String × Value}

namespace Guard

/-- A check that tells whether something holds, and rejects what it does not hold of. -/
def Decides {α : Type} (x : Outcome α) (P : Prop) : Prop :=
  (P ∧ ∃ a, x = .ok a) ∨ (¬ P ∧ ∃ words, x = .error (.rejected words))

namespace Decides

variable {α β : Type} {P Q : Prop} {x : Outcome α} {f : α → Outcome β}

theorem congr (h : Decides x P) (hiff : P ↔ Q) : Decides x Q := by rwa [Decides, ← hiff]

theorem eq_ok_iff {x : Outcome Unit} (h : Decides x P) : x = .ok () ↔ P := by
  rcases h with ⟨hP, ⟨⟩, rfl⟩ | ⟨hP, words, rfl⟩ <;> simp [hP]

theorem bind (hx : Decides x P) (hf : ∀ a, Decides (f a) Q) : Decides (x >>= f) (P ∧ Q) := by
  rcases hx with ⟨hP, a, rfl⟩ | ⟨hP, words, rfl⟩
  · exact (hf a).congr (by simp [hP])
  · exact .inr ⟨fun h => hP h.1, words, rfl⟩

theorem all {P : α → Prop} (items : List α) (h : ∀ a, Decides (f a) (P a)) :
    Decides (forIn items PUnit.unit fun a _ => f a >>= fun _ => pure (.yield PUnit.unit)) (∀ a ∈ items, P a) := by
  induction items with
  | nil => exact .inl ⟨by simp, (), rfl⟩
  | cons a rest ih =>
    rw [forIn_cons, bind_assoc]
    exact ((h a).bind fun _ => ih).congr forall_mem_cons.symm

theorem each {P : α → Prop} {f : α → Outcome Unit} (items : List α) (h : ∀ a, Decides (f a) (P a)) :
    Decides (items.forM f) (∀ a ∈ items, P a) := by
  induction items with
  | nil => exact .inl ⟨by simp, (), rfl⟩
  | cons a rest ih => exact ((h a).bind fun _ => ih).congr forall_mem_cons.symm

theorem texts {limit : Value} {P : Value → Prop} (h : ∀ v, Decides (checkWithin limit v) (P v)) (vs : List Value) :
    Decides (checkTexts limit vs) (∀ v ∈ vs, ∀ s, v = .text s → P v) := by
  refine each vs fun v => ?_
  cases v with
  | text s =>
    rcases h (.text s) with ⟨hP, a, ha⟩ | ⟨hP, words, hwords⟩
    · exact .inl ⟨fun _ _ => hP, (), by rw [ha]; rfl⟩
    · exact .inr ⟨fun hall => hP (hall s rfl), words, by rw [hwords]; rfl⟩
  | _ => exact .inl ⟨by simp, (), rfl⟩

end Decides

def Passes (limit : Int) (v : Value) : Prop :=
  ∃ s, v = .text s ∧ (s.length : Int) ≤ limit ∧ complaint? s.toList = none

theorem decides_checkWithin_text {limit : Value} {isOver : Nat → Bool}
    (h : ∀ n, (Value.nat n).greater limit = .ok (isOver n)) (s : String) :
    Decides (checkWithin limit (.text s)) (isOver s.length = false ∧ complaint? s.toList = none) := by
  simp only [checkWithin, h]
  cases isOver s.length with
  | true => exact .inr ⟨by simp, _, rfl⟩
  | false =>
    cases complaint? s.toList with
    | none => exact .inl ⟨⟨rfl, rfl⟩, s, rfl⟩
    | some words => exact .inr ⟨by simp, words, rfl⟩

theorem decides_checkWithin (limit : Int) (v : Value) : Decides (checkWithin (.int limit) v) (Passes limit v) := by
  cases v with
  | text s => exact (decides_checkWithin_text (Value.greater_nat_int · limit) s).congr (by simp [Passes])
  | _ => exact .inr ⟨by simp [Passes], _, rfl⟩

namespace Request

def announcesJson (r : Request) : Bool :=
  match r.header? "content-type" with
  | some (.text s) => Text.startsWith "application/json" s
  | _ => false

def HasTexts (r : Request) : Prop := ∀ e ∈ r.headers, ∃ s, e.2 = .text s

/-- What a request has to be like, with the longest header and the longest other text. -/
structure Acceptable (header usual : Int) (r : Request) : Prop where
  kind : r.hasBody = true → r.announcesJson = true
  headers : ∀ e ∈ r.headers, Passes header e.2
  query : ∀ v ∈ r.query, Passes usual v
  params : ∀ v ∈ r.params, ∀ s, v = .text s → Passes usual v
  body : r.hasBody = true → ∃ entries, Json.parse r.body = .ok (.object entries) ∧
    ∀ v ∈ entries.map (·.2), ∀ s, v = .text s → Passes usual v

theorem kind_eq_text (h : r.HasTexts) : ∃ s, (r.header? "content-type").getD (.text "") = .text s ∧
      Text.startsWith "application/json" s = r.announcesJson := by
  unfold announcesJson
  cases hv : r.header? "content-type" with
  | none => exact ⟨"", rfl, rfl⟩
  | some v =>
    obtain ⟨before, after, hheaders, -⟩ := lookup_eq_some_iff.mp hv
    obtain ⟨s, rfl⟩ := h (lowerText "content-type", v) (by simp [hheaders])
    exact ⟨s, rfl, rfl⟩

end Request

variable {s : Settings} {r : Request}

theorem checkHeaders_of_kind (htexts : r.HasTexts) (h : r.hasBody → r.announcesJson) : checkHeaders s r = (do
      for name in ← (← s.get "REQUIRED_HEADERS").parts do
        if (r.header? (← name.textFor "lower")).isNone then
          throw (.rejected ("Header requis manquant: " ++ name.display))
      for (_, value) in r.headers do
        let limit ← s.get "HEADER_MAX_LENGTH"
        let _ ← checkWithin (if limit.truthy then limit else s.usualLimit) value) := by
  obtain ⟨kind, hkind, hjson⟩ := Request.kind_eq_text htexts
  unfold checkHeaders
  cases hb : r.hasBody with
  | false => rfl
  | true => simp [hkind, Value.textFor, hjson, h hb]

theorem checkHeaders_of_not_kind (htexts : r.HasTexts) (hbody : r.hasBody) (h : r.announcesJson = false) :
    checkHeaders s r = .error (.rejected "Content-Type doit être application/json") := by
  obtain ⟨kind, hkind, hjson⟩ := Request.kind_eq_text htexts
  simp [checkHeaders, hbody, hkind, Value.textFor, hjson, h]

structure Settings.Complete (s : Settings) (header usual : Int) : Prop where
  required : s.get "REQUIRED_HEADERS" = .ok (.list [])
  limit : s.get "HEADER_MAX_LENGTH" = .ok (.int header)
  usual : s.usualLimit = .int usual

section Checks

variable {usual header : Int} (hs : s.Complete header usual) (htexts : r.HasTexts)

include hs htexts

theorem decides_checkHeaders (hkind : r.hasBody → r.announcesJson) :
    Decides (checkHeaders s r) (∀ e ∈ r.headers, Passes (if header = 0 then usual else header) e.2) := by
  have hvalue (v : Value) : Decides
      (checkWithin (if (Value.int header).truthy then .int header else s.usualLimit) v)
      (Passes (if header = 0 then usual else header) v) := by
    by_cases h : header = 0
    · simpa [Value.truthy, h, hs.usual] using decides_checkWithin usual v
    · simpa [Value.truthy, h] using decides_checkWithin header v
  have hloop := Decides.all r.headers fun e => hvalue e.2
  rw [checkHeaders_of_kind htexts hkind, hs.required, hs.limit]
  exact (hloop.bind (Q := True) fun _ => .inl ⟨trivial, (), rfl⟩).congr (iff_of_eq (and_true _))

omit hs htexts in
theorem decides_checkDocument (v : Value) : Decides (checkDocument (.int usual) v [])
    (∃ entries, v = .object entries ∧ ∀ v ∈ entries.map (·.2), ∀ s, v = .text s → Passes usual v) := by
  cases v with
  | object entries => exact (Decides.texts (decides_checkWithin usual) _).congr (by simp)
  | _ => exact .inr ⟨by simp, _, rfl⟩

theorem decides_checkRequest (hread : r.hasBody → ∃ v, Json.parse r.body = .ok v) :
    Decides (checkRequest s r) (r.Acceptable (if header = 0 then usual else header) usual) := by
  have hrest : Decides (do
      for v in r.query do
        let _ ← checkWithin s.usualLimit v
      checkTexts s.usualLimit r.params)
      ((∀ v ∈ r.query, Passes usual v) ∧ ∀ v ∈ r.params, ∀ s, v = .text s → Passes usual v) := by
    rw [hs.usual]
    exact (Decides.all r.query (decides_checkWithin usual)).bind fun _ =>
      Decides.texts (decides_checkWithin usual) r.params
  by_cases hkind : r.hasBody → r.announcesJson
  · have hheaders := decides_checkHeaders hs htexts hkind
    cases hb : r.hasBody with
    | false =>
      rw [checkRequest, hb]
      exact (hheaders.bind fun _ => hrest).congr
        ⟨fun h => ⟨hkind, h.1, h.2.1, h.2.2, by simp [hb]⟩, fun h => ⟨h.headers, h.query, h.params⟩⟩
    | true =>
      obtain ⟨v, hv⟩ := hread hb
      rw [checkRequest, hb, hv, hs.usual]
      rw [hs.usual] at hrest
      refine (hheaders.bind fun _ => (decides_checkDocument v).bind fun _ => hrest).congr
        ⟨fun h => ⟨hkind, h.1, h.2.2.1, h.2.2.2, fun _ => ?_⟩, fun h => ⟨h.headers, ?_, h.query, h.params⟩⟩
      · simpa [hv] using h.2.1
      · simpa [hv] using h.body hb
  · simp only [Classical.not_imp, Bool.not_eq_true] at hkind
    rw [checkRequest, checkHeaders_of_not_kind htexts hkind.1 hkind.2]
    exact .inr ⟨fun h => by simp [h.kind hkind.1] at hkind, _, rfl⟩

theorem checkRequest_eq_ok_iff : (∃ u, checkRequest s r = .ok u) ↔
    r.Acceptable (if header = 0 then usual else header) usual := by
  by_cases hread : r.hasBody → ∃ v, Json.parse r.body = .ok v
  · rcases decides_checkRequest hs htexts hread with ⟨hP, h⟩ | ⟨hP, words, hwords⟩
    · exact iff_of_true h hP
    · exact iff_of_false (by simp [hwords]) hP
  · simp only [Classical.not_imp, not_exists] at hread
    obtain ⟨hb, hfails⟩ := hread
    refine iff_of_false ?_ fun h => ?_
    · rintro ⟨u, hu⟩
      rw [checkRequest, hb] at hu
      obtain ⟨-, -, hu⟩ := bind_eq_ok_iff.mp hu
      obtain ⟨v, hv, -⟩ := bind_eq_ok_iff.mp hu
      exact hfails v hv
    · obtain ⟨entries, hentries, -⟩ := h.body hb
      exact hfails _ hentries

end Checks

end Guard

namespace Config

theorem Setting.name_eq {s : Setting} {given : Entries} (h : s.read given = .ok e) : e.1 = s.name := by
  unfold Setting.read at h
  split at h
  next => cases h
  next v _ =>
    cases hv : s.kind.read [s.name] v with
    | error cs => simp [hv] at h
    | ok w =>
      simp only [hv, ok_bind] at h
      split at h
      next => cases h
      next => cases h; rfl

variable {given values : Entries}

theorem mem_readSchema {schema : List Setting}
    (h : readSchema schema given = .ok values) (he : e ∈ values) : e.1 ∈ schema.map Setting.name := by
  unfold readSchema at h
  dsimp only at h
  split at h
  next =>
    cases h
    obtain ⟨x, hx, hxe⟩ := mem_filterMap.mp he
    obtain ⟨s, hs, rfl⟩ := mem_map.mp hx
    cases hread : s.read given with
    | error cs => simp [hread, Except.toOption] at hxe
    | ok found =>
      cases hread ▸ hxe
      exact Setting.name_eq hread ▸ mem_map_of_mem hs
  next => cases h

theorem Protection.notMem_load {env : Environment} {name : String}
    (h : load env given = .ok values) (hname : name ∉ schema.map Setting.name) : name ∉ values.map Prod.fst := by
  intro hmem
  obtain ⟨e, he, rfl⟩ := mem_map.mp hmem
  obtain ⟨found, -, h⟩ := bind_eq_ok_iff.mp h
  cases hread : readSchema schema (overlay found given) with
  | ok v =>
    rw [hread] at h
    cases h
    exact hname (mem_readSchema hread he)
  | error cs => simp [hread] at h

end Config

namespace Guard

def rejection (words : String) : Reply := { status := 400, body := .object [("error", .text words)] }

def breakdown : Reply := { status := 500, body := .object [("error", .text "Erreur interne du serveur")] }

theorem answer_of_no_settings {s : Settings} (htexts : r.HasTexts)
    (h : "REQUIRED_HEADERS" ∉ s.map Prod.fst) (next : Reply) :
    answer s r next = if r.hasBody && !r.announcesJson then rejection "Content-Type doit être application/json"
      else breakdown := by
  by_cases hkind : r.hasBody → r.announcesJson
  · have hget : s.get "REQUIRED_HEADERS" =
        .error (.noAttribute "'SecuritySettings' object has no attribute 'REQUIRED_HEADERS'") := by
      rw [Settings.get, Entries.lookup_eq_none h]
      rfl
    have hif : (r.hasBody && !r.announcesJson) = false := by simpa using hkind
    rw [answer, checkRequest, checkHeaders_of_kind htexts hkind, hget, hif]
    rfl
  · simp only [Classical.not_imp, Bool.not_eq_true] at hkind
    rw [answer, checkRequest, checkHeaders_of_not_kind htexts hkind.1 hkind.2, hkind.1, hkind.2]
    rfl

/-- With the settings as they are loaded no request with texts comes through: it ends in a
breakdown, or in a rejection if its body is not announced. With complete settings it comes through
exactly if it is acceptable, and is rejected otherwise, as long as its body can be read. -/
theorem requests_answered {env : Config.Environment} {given s t : Entries} {header usual : Int}
    (hload : Config.Protection.load env given = .ok s) (hs : Settings.Complete t header usual)
    (htexts : r.HasTexts) :
    (∀ next, answer s r next = if r.hasBody && !r.announcesJson then
      rejection "Content-Type doit être application/json" else breakdown) ∧
    ((∀ next, answer t r next = next) ↔ r.Acceptable (if header = 0 then usual else header) usual) ∧
    (¬ r.Acceptable (if header = 0 then usual else header) usual →
      (r.hasBody = true → ∃ v, Json.parse r.body = .ok v) →
        ∃ words, ∀ next, answer t r next = rejection words) := by
  have hrequired : "REQUIRED_HEADERS" ∉ s.map Prod.fst :=
    Config.Protection.notMem_load hload (by decide)
  refine ⟨answer_of_no_settings htexts hrequired, ?_, fun hnot hread => ?_⟩
  · rw [← checkRequest_eq_ok_iff hs htexts]
    refine ⟨fun hnext => ?_, fun ⟨u, hu⟩ next => by rw [answer, hu]⟩
    cases hc : checkRequest t r with
    | ok u => exact ⟨u, rfl⟩
    | error f =>
      have hstatus := congrArg Reply.status (hnext { status := 0, body := .null })
      rw [answer, hc] at hstatus
      split at hstatus <;> simp_all
  · rcases decides_checkRequest hs htexts hread with ⟨hP, -⟩ | ⟨-, words, hwords⟩
    · exact absurd hP hnot
    · exact ⟨words, fun next => by rw [answer, hwords]; rfl⟩

theorem load_default : ∃ s, Protection.load [] [] = .ok s := by
  cases h : Protection.load [] [] with
  | ok s => exact ⟨s, rfl⟩
  | error f =>
    have hok : (Protection.load [] []).isOk := by decide +kernel
    rw [h] at hok
    cases hok

/-- Even an empty request, which is acceptable, ends in a breakdown. -/
theorem plain_request_answered_with_fault : ∃ s, Config.Protection.load [] [] = .ok s ∧
    ({} : Request).Acceptable 1000 1000 ∧ ∀ next, answer s {} next = breakdown := by
  obtain ⟨s, hs⟩ := load_default
  have hrequired : "REQUIRED_HEADERS" ∉ s.map Prod.fst :=
    Config.Protection.notMem_load hs (by decide)
  refine ⟨s, hs, ?_, answer_of_no_settings (by simp [Request.HasTexts]) hrequired⟩
  constructor <;> simp [Request.hasBody]

theorem requests_answered_query : ∃ s, Config.Protection.load [] [] = .ok s ∧
    (∀ next, answer s { query := [.text "1 -- 2"] } next = breakdown) ∧
    ∃ words, ∀ next, answer [("REQUIRED_HEADERS", .list []), ("HEADER_MAX_LENGTH", .int 200)]
      { query := [.text "1 -- 2"] } next = rejection words := by
  obtain ⟨s, hs⟩ := load_default
  obtain ⟨hfault, -, hrejects⟩ := requests_answered (r := { query := [.text "1 -- 2"] })
    (t := [("REQUIRED_HEADERS", .list []), ("HEADER_MAX_LENGTH", .int 200)]) hs ⟨rfl, rfl, rfl⟩
    (by simp [Request.HasTexts])
  refine ⟨s, hs, hfault, hrejects (fun h => ?_) (by simp [Request.hasBody])⟩
  obtain ⟨text, htext, -, hnone⟩ := h.query _ (List.mem_singleton_self _)
  cases htext
  exact absurd hnone (by decide)

end Guard

/-! What the checks on input let through. A part of an accepted text is accepted: all that is looked
for are words, and a part is no longer than the whole. -/

variable {m n : Nat}

theorem Num.compare?_gt_of_le (h : m ≤ n) {y : Num} (hm : compare? (.int m) y = some .gt) :
    compare? (.int n) y = some .gt := by
  cases y with
  | int k =>
    simp only [compare?, Option.some.injEq, Int.compare_eq_gt] at hm ⊢
    omega
  | float x =>
    obtain ⟨o, ho, hswap⟩ := Option.map_eq_some_iff.mp hm
    obtain rfl : o = .lt := by cases o <;> simp_all
    refine Option.map_eq_some_iff.mpr ⟨.lt, ?_, rfl⟩
    unfold compare?.floatWithInt at ho ⊢
    cases hx : Dyadic.ofFloat? x with
    | none => rwa [hx] at ho
    | some d =>
      simp only [hx, Option.some.injEq, Dyadic.compareInt, Int.compare_eq_lt] at ho ⊢
      have hmn : (m : Int) ≤ n := by omega
      exact Int.lt_of_lt_of_le ho (Int.mul_le_mul_of_nonneg_right hmn (Int.natCast_nonneg _))

/-- No length can be compared with a limit that is no number. With one that is, what is longer than
a length over the limit is over it as well. -/
theorem Value.greater_nat_cases (limit : Value) : (∀ n, ∃ words, greater (.nat n) limit = .error (.wrongType words)) ∨
      ∃ isOver : Nat → Bool, (∀ n, greater (.nat n) limit = .ok (isOver n)) ∧
        ∀ m n, m ≤ n → isOver m → isOver n := by
  cases hy : limit.number? with
  | none => exact .inl fun n => ⟨_, by simp only [greater, nat, order?, orderNum, hy]; rfl⟩
  | some y =>
    refine .inr ⟨fun n => Num.compare? (.int n) y == some .gt, fun n => ?_, fun m n h hm => ?_⟩
    · simp only [greater, nat, order?, orderNum, hy]
      rfl
    · simpa using Num.compare?_gt_of_le h (by simpa using hm)

namespace Guard

/-! Words in a text and in its parts. -/

variable {word s part whole : Chars}

theorem startsLike_append (h : startsLike word s) (rest : Chars) : startsLike word (s ++ rest) := by
  induction word generalizing s with
  | nil => rfl
  | cons w word ih =>
    cases s with
    | nil => cases h
    | cons c s =>
      obtain ⟨hc, hs⟩ := Bool.and_eq_true_iff.mp h
      exact Bool.and_eq_true_iff.mpr ⟨hc, ih hs⟩

theorem mentions_iff : mentions word s ↔ ∃ t, t <:+ s ∧ startsLike word t := by
  induction s with
  | nil => cases word <;> simp [mentions, startsLike]
  | cons c s ih => simp [mentions, ih, suffix_cons_iff, or_and_right, exists_or]

theorem mentions_of_part (h : part <:+: whole) (hp : mentions word part) : mentions word whole := by
  obtain ⟨before, after, rfl⟩ := h
  obtain ⟨t, ht, hstarts⟩ := mentions_iff.mp hp
  refine mentions_iff.mpr ⟨t ++ after, ?_, startsLike_append hstarts after⟩
  obtain ⟨first, rfl⟩ := ht
  exact ⟨before ++ first, by simp⟩

theorem mentionsAny_of_part {words : List String} (h : part <:+: whole) (hp : mentionsAny words part) :
    mentionsAny words whole := by
  obtain ⟨word, hword, hm⟩ := any_eq_true.mp hp
  exact any_eq_true.mpr ⟨word, hword, mentions_of_part h hm⟩

theorem complaint?_eq_none_iff : complaint? s = none ↔ mentionsAny queryWords s = false ∧
    mentionsAny scriptWords s = false ∧ mentionsAny commandWords s = false := by
  unfold complaint?
  split_ifs <;> simp_all

theorem complaint?_of_part (h : part <:+: whole) (hw : complaint? whole = none) : complaint? part = none := by
  have hwords (words : List String) (hw : mentionsAny words whole = false) : mentionsAny words part = false := by
    rw [Bool.eq_false_iff] at hw ⊢
    exact fun hp => hw (mentionsAny_of_part h hp)
  obtain ⟨hquery, hscript, hcommand⟩ := complaint?_eq_none_iff.mp hw
  exact complaint?_eq_none_iff.mpr ⟨hwords _ hquery, hwords _ hscript, hwords _ hcommand⟩

variable {limit : Value}

theorem checkWithin_eq_ok {s given : String} (h : checkWithin limit (.text s) = .ok given) : given = s := by
  obtain ⟨isOver, -, h⟩ := bind_eq_ok_iff.mp h
  cases isOver with
  | true => cases h
  | false =>
    cases hc : complaint? s.toList <;> rw [hc] at h <;> cases h
    rfl

theorem checkWithin_of_no_limit (h : ∀ n, ∃ words, (Value.nat n).greater limit = .error (.wrongType words))
    (s : String) : ∃ words, checkWithin limit (.text s) = .error (.wrongType words) := by
  obtain ⟨words, hwords⟩ := h s.length
  exact ⟨words, by rw [checkWithin, hwords]; rfl⟩

/-- Whatever the limit, every part of an accepted text is accepted and given back unchanged, and
what contains a rejected text is rejected. -/
theorem parts_of_accepted (limit : Value) {whole part : String}
    (hpart : part.toList <:+: whole.toList) :
    (∀ given, checkText (.text whole) limit = .ok given →
      given = whole ∧ checkText (.text part) limit = .ok part) ∧
      ∀ words, checkText (.text part) limit = .error (.rejected words) →
        ∃ reason, checkText (.text whole) limit = .error (.rejected reason) := by
  unfold checkText
  rcases Value.greater_nat_cases (limitOf limit) with hnone | ⟨isOver, hover, hmono⟩
  · obtain ⟨words, hwhole⟩ := checkWithin_of_no_limit hnone whole
    obtain ⟨words', hpart⟩ := checkWithin_of_no_limit hnone part
    simp [hwhole, hpart]
  have hlength : part.length ≤ whole.length := by simpa only [String.length_toList] using hpart.length_le
  rcases decides_checkWithin_text hover whole with ⟨⟨hshort, hclean⟩, given, hwhole⟩ | ⟨-, reason, hwhole⟩
  · have hshort' : isOver part.length = false := by
      rw [Bool.eq_false_iff] at hshort ⊢
      exact fun hp => hshort (hmono _ _ hlength hp)
    rcases decides_checkWithin_text hover part with ⟨-, given', hpart⟩ | ⟨hnot, -⟩
    · simp [hwhole, hpart, checkWithin_eq_ok hwhole, checkWithin_eq_ok hpart]
    · exact absurd ⟨hshort', complaint?_of_part hpart hclean⟩ hnot
  · simp [hwhole]

theorem parts_of_accepted_name :
    ("ab c".toList <:+: "xab cd".toList ∧ checkText "xab cd" (.int 6) = .ok "xab cd") ∧
    checkText "ab c" (.int 6) = .ok "ab c" := by
  have hpart : "ab c".toList <:+: "xab cd".toList := ⟨['x'], ['d'], by decide⟩
  have hwhole : checkText "xab cd" (.int 6) = .ok "xab cd" := by decide
  exact ⟨⟨hpart, hwhole⟩, ((parts_of_accepted (.int 6) hpart).1 _ hwhole).2⟩

inductive Contains (s : String) : Value → Prop where
  | here : Contains s (.text s)
  | item {items : List Value} {v : Value} (hv : v ∈ items) (h : Contains s v) : Contains s (.list items)
  | entry {entries : Entries} {e : String × Value} (he : e ∈ entries) (h : Contains s e.2) :
      Contains s (.object entries)

theorem checkText_eq_ok_iff {s : String} : checkText (.text s) .null = .ok s ↔ Passes textLimit (.text s) := by
  rcases decides_checkWithin textLimit (.text s) with ⟨hpasses, given, h⟩ | ⟨hpasses, words, h⟩
  · exact iff_of_true (h.trans (by rw [checkWithin_eq_ok h])) hpasses
  · exact iff_of_false (by rw [show checkText (.text s) .null = _ from h]; simp) hpasses

theorem checkDocument_object_iff {entries : Entries} (required : List Value) :
    checkDocument limit (.object entries) required = .ok () ↔
      (∀ field ∈ required, field.occursIn (.object entries) = .ok true) ∧
        checkTexts limit (entries.map (·.2)) = .ok () := by
  induction required with
  | nil => exact (and_iff_right (by simp)).symm
  | cons field required ih =>
    rw [forall_mem_cons, and_assoc, ← ih]
    simp only [checkDocument, forIn_cons]
    cases field.occursIn (.object entries) with
    | error f => simp
    | ok found => cases found <;> simp

/-- A document is let through if and only if it has the required fields and every text that is the
value of one of its own entries is accepted. What stands further inside is not looked at. -/
theorem document_accepted_iff (v : Value) (required : List Value) :
    checkDocument (limitOf .null) v required = .ok () ↔ ∃ entries, v = .object entries ∧
      (∀ field ∈ required, field.occursIn v = .ok true) ∧
      ∀ s name, (name, .text s) ∈ entries → checkText (.text s) .null = .ok s := by
  cases v with
  | object entries =>
    have htexts := (Decides.texts (decides_checkWithin textLimit) (entries.map (·.2))).eq_ok_iff
    simp only [Value.object.injEq, exists_eq_left', checkDocument_object_iff, checkText_eq_ok_iff]
    exact and_congr_right fun _ => htexts.trans (by grind)
  | _ => simp [checkDocument]

/-- A document is accepted with a text inside that would be rejected alone. -/
theorem rejected_text_in_accepted_document : ∃ s v, Contains s v ∧
    checkDocument (limitOf .null) v [.text "a"] = .ok () ∧
      ∃ f, checkText (.text s) .null = .error f := by
  refine ⟨"a; b", .object [("a", .object [("b", .text "a; b")])], ?_, ?_, ?_⟩
  · exact .entry mem_cons_self (.entry mem_cons_self .here)
  · decide
  · exact ⟨.rejected "Motif d'injection SQL détecté", by decide⟩

end Guard

end CodeAudit

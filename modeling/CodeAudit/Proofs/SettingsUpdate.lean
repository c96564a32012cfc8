import CodeAudit.Config.Settings
import CodeAudit.Proofs.Dictionary

/-! Updates of the settings. They are written to the file before any of them is looked at, and a
number that is none is noticed only when the settings are read. -/

namespace CodeAudit.Config

variable {name : String}

open List

namespace Variables

def isSettable (a : String × Option String) : Bool :=
  a.2.all fun v => !(a.1.toList ++ v.toList).contains '\x00' && !a.1.toList.contains '='

/-- What a name stands for once `found` is laid over what it stood for before. -/
def held (found : List (String × Option String)) (name : String) (before : Option String) : Option String :=
  found.foldl (fun v a => if a.1 = name then a.2.or v else v) before

theorem lookup_cons (name : String) (a : String × String) (env : Environment) :
    (a :: env).lookup name = if name = a.1 then some a.2 else env.lookup name := by
  simpa only [beq_iff_eq, Keyed.get?] using Keyed.get?_cons name a env

theorem lookup_map (env : Environment) (name value other : String) :
    (env.map fun e => if e.1 = name then (name, value) else e).lookup other =
      if other = name then (env.lookup name).map fun _ => value else env.lookup other := by
  induction env with
  | nil => simp
  | cons e rest ih =>
    rw [map_cons, lookup_cons, lookup_cons, lookup_cons, ih]
    by_cases he : e.1 = name
    · by_cases ho : other = name <;> simp [he, ho]
    · by_cases ho : other = name <;> simp [he, ho, Ne.symm he]

theorem put_of_settable {value : String} (h : isSettable (name, some value)) (env : Environment) :
    ∃ env', put env name value = .ok env' ∧
      ∀ other, env'.lookup other = if other = name then some value else env.lookup other := by
  simp only [isSettable, Option.all_some, Bool.and_eq_true, Bool.not_eq_true', contains_eq_mem,
    mem_append, decide_eq_false_iff_not, not_or] at h
  rw [put, if_neg (by simp [h.1.1, h.1.2]), if_neg (by simp [h.2])]
  split
  next hsome =>
    obtain ⟨old, hold⟩ := Option.isSome_iff_exists.mp hsome
    exact ⟨_, rfl, fun other => by rw [lookup_map, hold, Option.map_some]⟩
  next hnone =>
    rw [Bool.not_eq_true, Option.isSome_eq_false_iff, Option.isNone_iff_eq_none] at hnone
    refine ⟨_, rfl, fun other => ?_⟩
    rw [lookup_append, lookup_cons]
    by_cases ho : other = name <;> simp [ho, hnone]

theorem put_of_not_settable {value : String} (h : isSettable (name, some value) = false) (env : Environment) :
    ∃ words, put env name value = .error (.badValue words) := by
  unfold put
  split
  next => exact ⟨_, rfl⟩
  next hnull =>
    have heq : name.toList.contains '=' := by simp_all [isSettable]
    exact ⟨_, if_pos heq⟩

variable {found : List (String × Option String)}

theorem putAll_of_settable (h : found.all isSettable)
    (env : Environment) : ∃ env', putAll true env found = (.ok (), env') ∧
      ∀ name, env'.lookup name = held found name (env.lookup name) := by
  induction found generalizing env with
  | nil => exact ⟨env, rfl, fun _ => rfl⟩
  | cons a rest ih =>
    rw [all_cons, Bool.and_eq_true] at h
    obtain ⟨name, _ | value⟩ := a
    · obtain ⟨env', hput, hlook⟩ := ih h.2 env
      exact ⟨env', hput, fun other => by simp [hlook, held]⟩
    · obtain ⟨next, hnext, hfirst⟩ := put_of_settable h.1 env
      obtain ⟨env', hput, hlook⟩ := ih h.2 next
      refine ⟨env', by simpa [putAll, hnext] using hput, fun other => ?_⟩
      rw [hlook, hfirst, held, held, foldl_cons, Option.some_or]
      simp only [eq_comm]

theorem putAll_of_not_settable (h : found.all isSettable = false)
    (env : Environment) : ∃ words, (putAll true env found).1 = .error (.badValue words) := by
  induction found generalizing env with
  | nil => simp at h
  | cons a rest ih =>
    obtain ⟨name, _ | value⟩ := a
    · exact ih (by simpa [isSettable] using h) env
    · by_cases ha : isSettable (name, some value)
      · obtain ⟨next, hnext, -⟩ := put_of_settable ha env
        simpa [putAll, hnext] using ih (by simpa [ha] using h) next
      · obtain ⟨words, hwords⟩ := put_of_not_settable (Bool.not_eq_true _ ▸ ha) env
        exact ⟨words, by simp [putAll, hwords]⟩

end Variables

namespace Central

open Variables

def decimals : List String := ["TEMPERATURE", "SECURITY_MIN_CONFIDENCE"]

def wholes : List String := ["MAX_TOKENS", "SECURITY_TIMEOUT", "SECURITY_MAX_ISSUES", "MAX_FILE_SIZE"]

structure Numerals (given : String → Option String) : Prop where
  decimal : ∀ name ∈ decimals, ∀ s, given name = some s → (floatOfText? s).isSome
  whole : ∀ name ∈ wholes, ∀ s, given name = some s → (intOfText? s).isSome

variable {c : Central} {updates : Entries}

theorem exists_decimal {default : Float} : (∃ v, c.decimal name default = .ok v) ↔
    ∀ s, c.env.lookup name = some s → (floatOfText? s).isSome := by
  unfold decimal
  cases c.env.lookup name with
  | none => simp
  | some s => cases h : floatOfText? s <;> simp [floatOfText, h, Except.map]

theorem exists_whole {default : Int} : (∃ v, c.whole name default = .ok v) ↔
    ∀ s, c.env.lookup name = some s → (intOfText? s).isSome := by
  unfold whole
  cases c.env.lookup name with
  | none => simp
  | some s =>
    rcases hc : intChars? s with _ | ⟨negative, digits⟩ <;>
      cases h : intOfText? s <;> simp [intOfText, h, hc, Except.map]

theorem get_eq_ok_iff : (∃ v, c.get = .ok v) ↔ Numerals fun name => c.env.lookup name := by
  have hget : (∃ v, c.get = .ok v) ↔ ∃ v, c.settings = .ok v := by
    unfold get
    cases c.settings <;> simp
  rw [hget]
  simp only [settings, bind_eq_ok_iff]
  constructor
  · rintro ⟨v, t, ht, m, hm, o, ho, i, hi, p, hp, z, hz, -⟩
    refine ⟨?_, ?_⟩
    · simpa [decimals] using ⟨exists_decimal.mp ⟨t, ht⟩, exists_decimal.mp ⟨p, hp⟩⟩
    · simpa [wholes] using
        ⟨exists_whole.mp ⟨m, hm⟩, exists_whole.mp ⟨o, ho⟩, exists_whole.mp ⟨i, hi⟩, exists_whole.mp ⟨z, hz⟩⟩
  · intro h
    obtain ⟨t, ht⟩ := exists_decimal.mpr (h.decimal "TEMPERATURE" (by simp [decimals]))
    obtain ⟨m, hm⟩ := exists_whole.mpr (h.whole "MAX_TOKENS" (by simp [wholes]))
    obtain ⟨o, ho⟩ := exists_whole.mpr (h.whole "SECURITY_TIMEOUT" (by simp [wholes]))
    obtain ⟨i, hi⟩ := exists_whole.mpr (h.whole "SECURITY_MAX_ISSUES" (by simp [wholes]))
    obtain ⟨p, hp⟩ := exists_decimal.mpr (h.decimal "SECURITY_MIN_CONFIDENCE" (by simp [decimals]))
    obtain ⟨z, hz⟩ := exists_whole.mpr (h.whole "MAX_FILE_SIZE" (by simp [wholes]))
    exact ⟨_, t, ht, m, hm, o, ho, i, hi, p, hp, z, hz, rfl⟩

def written (c : Central) (updates : Entries) : String :=
  updates.foldl (fun text e => set text e.1 e.2.display) (c.file.getD "")

def found (c : Central) (updates : Entries) : List (String × Option String) := values true c.env (c.written updates)

theorem foldl_write (updates : Entries) : (updates.foldl (fun c e => c.write e.1 e.2.display) c).env = c.env ∧
    (updates.foldl (fun c e => c.write e.1 e.2.display) c).file.getD "" = c.written updates := by
  induction updates generalizing c with
  | nil => exact ⟨rfl, rfl⟩
  | cons e rest ih => exact ih (c := c.write e.1 e.2.display)

theorem update_eq (c : Central) (updates : Entries) : ∃ file, file.getD "" = c.written updates ∧
    c.update (.object updates) =
      ((putAll true c.env (c.found updates)).1, ⟨(putAll true c.env (c.found updates)).2, file⟩) := by
  obtain ⟨henv, hfile⟩ := foldl_write (c := c) updates
  refine ⟨_, hfile, ?_⟩
  rw [update, Value.entries_object, found, ← hfile, ← henv]
  rfl

/-- An update fails as one of a wrong value and changes nothing, or succeeds and leaves settings
that can be read. -/
def Honours (c : Central) (updates : Value) : Prop :=
  match c.update updates with
  | (.error f, after) => (∃ words, f = .badValue words) ∧ after = c
  | (.ok _, after) => ∃ v, after.get = .ok v

theorem honours_of_settable (h : (c.found updates).all isSettable) : (c.update (.object updates)).1 = .ok () ∧
      (c.Honours (.object updates) ↔ Numerals fun name => held (c.found updates) name (c.env.lookup name)) := by
  obtain ⟨file, -, hupdate⟩ := c.update_eq updates
  obtain ⟨env, hput, hlook⟩ := putAll_of_settable h c.env
  rw [Honours, hupdate, hput]
  refine ⟨rfl, get_eq_ok_iff.trans ?_⟩
  simp only [hlook]

theorem honours_of_not_settable (h : (c.found updates).all isSettable = false) :
    (∃ words, (c.update (.object updates)).1 = .error (.badValue words)) ∧
      (c.Honours (.object updates) ↔ (c.update (.object updates)).2 = c) := by
  obtain ⟨file, -, hupdate⟩ := c.update_eq updates
  obtain ⟨words, hput⟩ := putAll_of_not_settable h c.env
  rw [Honours, hupdate, hput]
  exact ⟨⟨words, rfl⟩, by simp⟩

/-- An update is written to the file as it is. It is honoured exactly if every setting that holds a
number can still be read as one; if a name or a value cannot be set, it has to leave everything as
it was. -/
theorem update_honoured_iff (c : Central) (updates : Entries) :
    (c.update (.object updates)).2.file.getD "" = c.written updates ∧
    if (c.found updates).all isSettable then
      (c.update (.object updates)).1 = .ok () ∧
        (c.Honours (.object updates) ↔
          Numerals fun name => held (c.found updates) name (c.env.lookup name))
    else (∃ words, (c.update (.object updates)).1 = .error (.badValue words)) ∧
      (c.Honours (.object updates) ↔ (c.update (.object updates)).2 = c) := by
  refine ⟨?_, ?_⟩
  · obtain ⟨file, hfile, hupdate⟩ := c.update_eq updates
    rw [hupdate, hfile]
  · split
    next h => exact honours_of_settable h
    next h => exact honours_of_not_settable (Bool.not_eq_true _ ▸ h)

/-- A timeout that is no number is accepted. -/
theorem wrong_value_accepted : start defaults none = .ok { env := defaults } ∧
    (({ env := defaults } : Central).update (.object [("SECURITY_TIMEOUT", .text "invalid")])).1 =
      .ok () ∧
    ¬ ({ env := defaults } : Central).Honours
      (.object [("SECURITY_TIMEOUT", .text "invalid")]) := by
  have hfound : ({ env := defaults } : Central).found [("SECURITY_TIMEOUT", .text "invalid")] =
      [("SECURITY_TIMEOUT", some "invalid")] := by decide +kernel
  obtain ⟨hok, hiff⟩ := honours_of_settable (by rw [hfound]; decide)
  refine ⟨by rfl, hok, fun h => ?_⟩
  have hnumeral := (hiff.mp h).whole "SECURITY_TIMEOUT" (by simp [wholes]) "invalid" (by rw [hfound]; rfl)
  exact absurd hnumeral (by decide)

end Central

end CodeAudit.Config

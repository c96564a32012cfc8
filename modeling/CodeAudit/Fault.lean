import CodeAudit.Text.Quoted

/-! Reasons for which work on values from outside stops. Each carries the words shown to a user. -/

namespace CodeAudit

inductive MarkupStage where
  | reader | scanner | parser | composer | builder
deriving DecidableEq

inductive Fault where
  | wrongType (words : String)
  | noAttribute (words : String)
  | missingKey (key : String)
  | missingItem (shown : String)
  | badValue (words : String)
  | badIndex (words : String)
  | zeroDivision (words : String)
  | overflow (words : String)
  | runtime (words : String)
  | tooDeep (words : String)
  | badProgram
  | badPattern
  | badDocument (words : String)
  | missingFile (words : String)
  | notDirectory (words : String)
  | isDirectory (words : String)
  | badPath (words : String)
  | missingModule (words : String)
  | noData (words : String)
  | security (words : String)
  | rejected (words : String)
  | badMarkup (stage : MarkupStage) (words : String)
  | incident (kind : String) (words : String)
  | refused (status : Nat) (detail : String)
  | badSetting (words : String)
  | invalid (words : String)
  | invalidFields (fields : List String)
  | noConnection (words : String)
  | badStream (words : String)
  | badPadding (words : String)
  | badEncoding
  | badSeal
  | noRoom
deriving DecidableEq, Inhabited

def Fault.text : Fault → String
  | .wrongType words | .noAttribute words | .badValue words | .badIndex words
  | .zeroDivision words | .overflow words | .runtime words
  | .badDocument words | .missingFile words | .notDirectory words | .isDirectory words | .badPath words
  | .missingModule words | .noData words | .security words
  | .rejected words | .tooDeep words | .missingItem words
  | .badMarkup _ words | .incident _ words | .badSetting words | .invalid words
  | .noConnection words | .badStream words | .badPadding words => words
  | .badEncoding => "invalid start byte"
  | .badPattern | .badSeal | .noRoom => ""
  | .missingKey key => quoted key
  | .badProgram => "<syntax error>"
  | .invalidFields fields => ", ".intercalate fields
  | .refused status detail => "(" ++ natText status ++ ", " ++ quoted detail ++ ")"

abbrev Fault.noFile : Fault := .missingFile "No such file or directory"

def maxDigits : Nat := 4300

def tooManyDigits (count : Nat) : Fault :=
  .badValue ("Exceeds the limit (4300 digits) for integer string conversion: value has " ++
    natText count ++ " digits; use sys.set_int_max_str_digits() to increase the limit")

abbrev Outcome (α : Type) := Except Fault α

/-! The laws of outcomes. They need nothing else, and whatever can fail is taken apart by them. -/

section

variable {ε α β : Type} {x : Except ε α} {f : α → Except ε β} {e : ε}

@[simp]
theorem ok_bind (a : α) (f : α → Except ε β) : .ok a >>= f = f a := rfl

@[simp]
theorem error_bind (e : ε) (f : α → Except ε β) : .error e >>= f = .error e := rfl

@[simp]
theorem pure_eq_ok (a : α) : (pure a : Except ε α) = .ok a := rfl

@[simp]
theorem throw_eq_error (e : ε) : (throw e : Except ε α) = .error e := rfl

theorem bind_eq_ok_iff {b : β} : x >>= f = .ok b ↔ ∃ a, x = .ok a ∧ f a = .ok b := by
  cases x <;> simp

theorem bind_eq_error_iff : x >>= f = .error e ↔ x = .error e ∨ ∃ a, x = .ok a ∧ f a = .error e := by
  cases x <;> simp

theorem mapM_eq_ok_iff {as : List α} {bs : List β} : as.mapM f = .ok bs ↔ as.map f = bs.map .ok := by
  induction as generalizing bs with
  | nil => simp [eq_comm]
  | cons a as ih =>
    rw [List.mapM_cons, bind_eq_ok_iff]
    simp only [bind_eq_ok_iff, ih, pure_eq_ok, Except.ok.injEq]
    constructor
    · rintro ⟨b, hb, rest, hrest, rfl⟩
      simp [hb, hrest]
    · intro h
      cases bs with
      | nil => cases h
      | cons b bs =>
        obtain ⟨hb, hrest⟩ := List.cons.inj h
        exact ⟨b, hb, bs, hrest, rfl⟩

theorem forM_eq_ok_iff {as : List α} {f : α → Except ε Unit} : as.forM f = .ok () ↔ ∀ a ∈ as, f a = .ok () := by
  induction as with
  | nil => simp [List.forM]
  | cons a as ih =>
    rw [List.forM, bind_eq_ok_iff, List.forall_mem_cons, ← ih]
    constructor
    · rintro ⟨⟨⟩, hfirst, hrest⟩
      exact ⟨hfirst, hrest⟩
    · rintro ⟨hfirst, hrest⟩
      exact ⟨(), hfirst, hrest⟩

end

end CodeAudit

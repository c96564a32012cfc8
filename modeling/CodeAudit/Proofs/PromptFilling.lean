import Mathlib.Data.List.TakeWhile
import CodeAudit.Assistant
import CodeAudit.Proofs.Dictionary

/-! Filling in prompts. Given texts stand in the filled text as they are, the other fields of a
prompt are its own or those of the default, and the templates stay as they were read. -/

namespace CodeAudit.Template

open List

/-- A field that stands for the whole of a variable, with the words before it. -/
structure Gap where
  words : Chars
  name : Chars

def isWordSign (c : Char) : Bool := c != '\x7b' && c != '\x7d'

def isNameSign (c : Char) : Bool := !isDecimalDigit c && !"\x7b\x7d:![.".toList.contains c

def Gap.isPlain (g : Gap) : Bool :=
  g.words.all isWordSign && !g.name.isEmpty && g.name.all isNameSign

def source : List Gap → Chars → Chars
  | [], last => last
  | g :: gaps, last => g.words ++ '\x7b' :: (g.name ++ '\x7d' :: source gaps last)

def Gap.shown (vars : Entries) (g : Gap) : Outcome Chars :=
  match vars.lookup (String.ofList g.name) with
  | some v => .ok (g.words ++ v.display.toList)
  | none => .error (.missingKey (String.ofList g.name))

variable {vars : Entries} {name rest last : Chars} {gaps : List Gap}

theorem isNameSign_iff {c : Char} :
    isNameSign c ↔ isDecimalDigit c = false ∧ c ≠ '\x7b' ∧ c ≠ '\x7d' ∧ c ≠ ':' ∧ c ≠ '!' ∧
      c ≠ '[' ∧ c ≠ '.' := by
  simp [isNameSign]

theorem fieldName_name (h : name.all isNameSign) :
    fieldName false (name ++ '\x7d' :: rest) = .ok (name, some '\x7d', rest) := by
  induction name with
  | nil => rfl
  | cons c name ih =>
    obtain ⟨hc, hname⟩ := Bool.and_eq_true_iff.mp h
    obtain ⟨-, hopen, hclose, hcolon, hmark, hbracket, -⟩ := isNameSign_iff.mp hc
    have hinside : (c == '[') = false := by simpa using hbracket
    simp [fieldName, refuse, hopen, hclose, hcolon, hmark, hinside, ih hname]

theorem lookUp_name (hne : name ≠ []) (h : name.all isNameSign) :
    lookUp vars name = ((vars.lookup (String.ofList name)).map .ok).getD
      (.error (.missingKey (String.ofList name))) := by
  have hsign : ∀ c ∈ name, isDecimalDigit c = false ∧ isPlain c = true := by
    intro c hc
    obtain ⟨hdigit, -, -, -, -, hbracket, hdot⟩ := isNameSign_iff.mp (all_eq_true.mp h c hc)
    simp [isPlain, hdigit, hbracket, hdot]
  have htake : name.takeWhile isPlain = name := takeWhile_eq_self_iff.mpr fun c hc => (hsign c hc).2
  have hplace : placeOf name = .ok none := by
    obtain ⟨c, hc⟩ := exists_mem_of_ne_nil name hne
    have hdigits : name.all isDecimalDigit = false :=
      all_eq_false.mpr ⟨c, hc, by simp [(hsign c hc).1]⟩
    simp [placeOf, hdigits]
  simp only [lookUp, htake, hplace, ok_bind, isEmpty_eq_false_iff.mpr hne]
  cases vars.lookup (String.ofList name) <;> simp [follow]

theorem takeWhile_words {words : Chars} (h : words.all isWordSign) (c : Char)
    (hc : isWordSign c = false) (rest : Chars) :
    (words ++ c :: rest).takeWhile isWordSign = words ∧
      (words ++ c :: rest).dropWhile isWordSign = c :: rest := by
  rw [takeWhile_append_of_pos (all_eq_true.mp h), dropWhile_append_of_pos (all_eq_true.mp h)]
  simp [hc]

theorem readField_name (h : name.all isNameSign) :
    readField (name ++ '\x7d' :: rest) = .ok (⟨name, none, []⟩, rest) := by
  rw [readField, fieldName_name h]
  rfl

theorem set_nil (v : Value) : v.set [] = .ok v.display := rfl

/-- A gap is filled with what its variable shows, whatever stands in that, and the rest is read
after it. -/
theorem fillChars_gap {g : Gap} (hg : g.isPlain) (depth fuel : Nat) (rest : Chars) :
    fillChars vars (depth + 1) (fuel + 1) (g.words ++ '\x7b' :: (g.name ++ '\x7d' :: rest)) = do
      let first ← g.shown vars
      let more ← fillChars vars (depth + 1) fuel rest
      return first ++ more := by
  simp only [Gap.isPlain, Bool.and_eq_true, Bool.not_eq_true', isEmpty_eq_false_iff] at hg
  obtain ⟨⟨hwords, hne⟩, hname⟩ := hg
  obtain ⟨htake, hdrop⟩ := takeWhile_words hwords '\x7b' rfl (g.name ++ '\x7d' :: rest)
  have hhead : (g.name ++ '\x7d' :: rest).head? ≠ some '\x7b' := by
    obtain ⟨c, name, hcons⟩ := exists_cons_of_ne_nil hne
    rw [hcons] at hname ⊢
    simpa using (isNameSign_iff.mp (all_eq_true.mp hname c mem_cons_self)).2.1
  have hsingle (words : String) :
      refuse ((g.name ++ '\x7d' :: rest).isEmpty || '\x7b' == '\x7d') words = .ok () := by
    simp [refuse]
  simp only [fillChars, ← isWordSign.eq_def, hdrop, htake, readField_name hname, if_neg hhead,
    hsingle, ok_bind, lookUp_name hne hname, Gap.shown]
  cases vars.lookup (String.ofList g.name) <;> simp [convert, set_nil]

theorem fillChars_source (hgaps : gaps.all Gap.isPlain) (hlast : last.all isWordSign)
    {depth fuel : Nat} (hfuel : gaps.length < fuel) :
    fillChars vars (depth + 1) fuel (source gaps last) =
      (gaps.mapM (Gap.shown vars)).map fun parts => parts.flatten ++ last := by
  induction gaps generalizing fuel with
  | nil =>
    obtain ⟨fuel, rfl⟩ : ∃ n, fuel = n + 1 := ⟨fuel - 1, by simp at hfuel; omega⟩
    have hall := all_eq_true.mp hlast
    have hdrop : last.dropWhile isWordSign = [] := dropWhile_eq_nil_iff.mpr hall
    simp only [source, fillChars, ← isWordSign.eq_def, hdrop]
    rw [takeWhile_eq_self_iff.mpr hall]
    rfl
  | cons g gaps ih =>
    obtain ⟨fuel, rfl⟩ : ∃ n, fuel = n + 1 := ⟨fuel - 1, by simp at hfuel; omega⟩
    obtain ⟨hg, hgaps⟩ := Bool.and_eq_true_iff.mp hgaps
    rw [source, fillChars_gap hg, ih hgaps (by simpa using hfuel), mapM_cons]
    cases g.shown vars with
    | error f => rfl
    | ok first => cases gaps.mapM (Gap.shown vars) <;> simp [Except.map]

/-- The letters of the words and of the rest need not be looked at. -/
theorem toList_gap {words field rest : String}
    (hfield : field.toList = '\x7b' :: (name ++ ['\x7d'])) (hrest : rest.toList = source gaps last) :
    (words ++ field ++ rest).toList = source (⟨words.toList, name⟩ :: gaps) last := by
  simp [source, hfield, hrest]

theorem length_le_source (gaps : List Gap) (last : Chars) :
    gaps.length ≤ (source gaps last).length := by
  induction gaps with
  | nil => exact Nat.zero_le _
  | cons g gaps ih =>
    simp only [source, length_append, length_cons]
    omega

theorem fill_source (hgaps : gaps.all Gap.isPlain) (hlast : last.all isWordSign) :
    fill (String.ofList (source gaps last)) vars =
      (gaps.mapM (Gap.shown vars)).map fun parts => String.ofList (parts.flatten ++ last) := by
  rw [fill, String.toList_ofList, String.length_ofList,
    fillChars_source hgaps hlast (Nat.lt_succ_of_le (length_le_source gaps last))]
  cases gaps.mapM (Gap.shown vars) <;> rfl

end CodeAudit.Template

namespace CodeAudit.Prompt

open List Template

section Memory

variable {l l' : Library} {name : Value} {vars : Entries} {place : Place}

/-- A dictionary with its text filled in. -/
def filled (prompt : Value) (vars : Entries) : Outcome Value := do
  match ← userText prompt vars with
  | some text => prompt.assign "user" text
  | none => return prompt

def isDictionary : Value → Bool
  | .object _ | .mapping _ | .list _ => true
  | _ => false

/-- The answer of a library as it was read. -/
def answer (l : Library) (name : Value) (vars : Entries) : Outcome Value := do
  let prompts ← l.prompts
  if !(← name.occursIn prompts) then
    throw (.badValue ("Prompt '" ++ name.display ++ "' non trouvé"))
  let made : Outcome Value := do
    let prompt ← prompts.memberAt name
    if !isDictionary prompt then throw (prompt.lacks "copy")
    let prompt ← filled prompt vars
    return .ofPairs ((← spread l.default) ++ (← spread prompt))
  made.mapError (Library.inPrompt name)

namespace Library

def withMade (l : Library) (v : Value) : Library := { l with made := l.made ++ [v] }

theorem read_withMade (l : Library) (v : Value) :
    (l.withMade v).read (.made l.made.length) = .ok v := by
  simp [read, withMade]

theorem copy_eq (l : Library) (place : Place) : l.copy place = l.read place >>= fun v =>
      if isDictionary v then .ok (.made l.made.length, l.withMade v)
      else .error (v.lacks "copy") := by
  unfold copy
  congr 1
  funext v
  cases v <;> rfl

theorem fill_withMade (l : Library) (v : Value) (vars : Entries) :
    (l.withMade v).fill (.made l.made.length) vars = (filled v vars).map l.withMade := by
  unfold fill filled
  rw [read_withMade, ok_bind]
  rcases userText v vars with f | text
  · rfl
  · cases text with
    | none => rfl
    | some text =>
      simp only [ok_bind, write, read_withMade]
      cases v.assign "user" text with
      | error f => rfl
      | ok changed => simp [withMade, Except.map]

theorem completed_withMade (l : Library) (v : Value) :
    (l.withMade v).completed (.made l.made.length) = do
      return .ofPairs ((← spread l.default) ++ (← spread v)) := by
  unfold completed
  rw [read_withMade]
  rfl

/-- A call gives the answer of the library as it was read, and adds no more to it than copies. -/
theorem get_eq (l : Library) (name : Value) (vars : Entries) :
    ∃ made, l.get name vars = (answer l name vars, { l with made }) := by
  unfold get answer
  cases hprompts : l.prompts with
  | error f => exact ⟨l.made, rfl⟩
  | ok prompts =>
    simp only [ok_bind]
    cases name.occursIn prompts with
    | error f => exact ⟨l.made, rfl⟩
    | ok has =>
      cases has with
      | false => exact ⟨l.made, rfl⟩
      | true =>
        rw [copy_eq]
        simp only [read, hprompts, ok_bind]
        cases prompts.memberAt name with
        | error f => exact ⟨l.made, rfl⟩
        | ok prompt =>
          cases hd : isDictionary prompt with
          | false => exact ⟨l.made, by simp [hd, Except.mapError]⟩
          | true =>
            simp only [ok_bind, hd, if_true, fill_withMade, Bool.not_true, Bool.false_eq_true,
              if_false]
            cases hf : filled prompt vars with
            | error f =>
              exact ⟨l.made ++ [prompt], by simp [Except.map, Except.mapError, withMade]⟩
            | ok v =>
              refine ⟨l.made ++ [v], ?_⟩
              simp only [Except.map, completed_withMade]
              rfl

/-- The answers to calls one after another, and the library after them. -/
def run (l : Library) : List (String × Entries) → List (Outcome Value) × Library
  | [] => ([], l)
  | (name, vars) :: calls =>
    let (first, l) := l.get (.text name) vars
    let (others, l) := l.run calls
    (first :: others, l)

theorem run_eq (l : Library) (calls : List (String × Entries)) :
    ∃ made, l.run calls = (calls.map fun c => answer l (.text c.1) c.2, { l with made }) := by
  induction calls generalizing l with
  | nil => exact ⟨l.made, rfl⟩
  | cons call calls ih =>
    obtain ⟨made, hget⟩ := l.get_eq (.text call.1) call.2
    obtain ⟨later, hrun⟩ := ih { l with made }
    refine ⟨later, ?_⟩
    -- An answer does not look at the copies, so that it is the same whatever was made before it.
    have hsame : (fun c : String × Entries => answer { l with made } (.text c.1) c.2) =
        fun c => answer l (.text c.1) c.2 := rfl
    simp only [run, hget, hrun, hsame, map_cons]

end Library

end Memory

/-- The texts of the prompts: what stands before each gap and what it is to be filled with. -/
def texts : List (String × List Gap × Chars) := [
  ("code_review", [⟨"Veuillez examiner le code suivant : ".toList, "code".toList⟩], []),
  ("project_analysis", [
      ⟨"Analysez le fichier suivant :\nChemin: ".toList, "file_path".toList⟩,
      ⟨"\n\nCode:\n\x60\x60\x60python\n".toList, "code".toList⟩],
    ("\n\x60\x60\x60\n\nFournissez une analyse détaillée incluant :\n" ++
      "1. Structure et organisation du code\n2. Bonnes pratiques et patterns utilisés\n" ++
      "3. Points d'amélioration potentiels\n4. Problèmes de sécurité éventuels\n" ++
      "5. Suggestions d'optimisation\n").toList)]

def isKept (default prompts : Entries) : Prop :=
  standard = .object [("default", .object default), ("custom_prompts", .object prompts)]

/-- The answer to a call, by its own name and variables. -/
inductive Answers (name : String) (vars : Entries) : Outcome Value → Prop
  | unknown (h : texts.lookup name = none) :
    Answers name vars (.error (.badValue ("Prompt '" ++ name ++ "' non trouvé")))
  /-- The first gap without a variable is told. -/
  | lacking {before after : List Gap} {last : Chars} {g : Gap}
    (h : texts.lookup name = some (before ++ g :: after, last))
    (hsome : ∀ g' ∈ before, (vars.lookup (String.ofList g'.name)).isSome)
    (hnone : vars.lookup (String.ofList g.name) = none) :
    Answers name vars (.error (.missingKey
      ("Variable manquante pour le prompt '" ++ name ++ "': " ++ quoted (String.ofList g.name))))
  | made {gaps : List Gap} {last : Chars} {parts : List Chars}
    {default prompts own entries : Entries}
    (h : texts.lookup name = some (gaps, last))
    (hparts : gaps.map (Gap.shown vars) = parts.map .ok)
    (hkept : isKept default prompts) (hown : prompts.lookup name = some (.object own))
    (huser : entries.lookup "user" = some (.text (String.ofList (parts.flatten ++ last))))
    (hrest : ∀ key ≠ "user", entries.lookup key = (own.lookup key).or (default.lookup key)) :
    Answers name vars (.ok (.object entries))

variable {vars own : Entries} {gaps : List Gap} {last : Chars}

theorem filled_object {text : String} (huser : own.lookup "user" = some (.text text))
    (htext : text.toList = source gaps last) (hgaps : gaps.all Gap.isPlain)
    (hlast : last.all isWordSign) :
    filled (.object own) vars = (gaps.mapM (Gap.shown vars)).map fun parts =>
      .object (own.put "user" (String.ofList (parts.flatten ++ last))) := by
  obtain rfl : text = String.ofList (source gaps last) := by rw [← htext, String.ofList_toList]
  simp only [filled, userText, Value.holds, huser, Value.member_object huser, Value.textFor,
    ok_bind, Option.isSome_some, fill_source hgaps hlast]
  cases gaps.mapM (Gap.shown vars) <;> rfl

theorem exists_gap_of_error {f : Fault} (h : gaps.mapM (Gap.shown vars) = .error f) :
    ∃ before g after, gaps = before ++ g :: after ∧
      (∀ g' ∈ before, (vars.lookup (String.ofList g'.name)).isSome) ∧
        vars.lookup (String.ofList g.name) = none ∧ f = .missingKey (String.ofList g.name) := by
  induction gaps with
  | nil => cases h
  | cons g gaps ih =>
    rw [mapM_cons, Gap.shown] at h
    cases hg : vars.lookup (String.ofList g.name) with
    | none =>
      rw [hg] at h
      exact ⟨[], g, gaps, rfl, nofun, hg, (Except.error.inj h).symm⟩
    | some v =>
      rw [hg, ok_bind] at h
      rcases bind_eq_error_iff.mp h with h | ⟨_, -, h⟩
      · obtain ⟨before, g', after, rfl, hsome, hnone, hf⟩ := ih h
        refine ⟨g :: before, g', after, rfl, ?_, hnone, hf⟩
        rintro g'' (_ | ⟨_, hmem⟩)
        · simp [hg]
        · exact hsome g'' hmem
      · cases h

section Answers

variable {l : Library} {name : String} {default prompts : Entries}
  (hl : Library.ofValue standard = .ok l) (hkept : isKept default prompts)

include hl hkept

theorem library_kept : l.default = .object default ∧ l.prompts = .ok (.object prompts) := by
  rw [hkept] at hl
  obtain rfl := Except.ok.inj hl
  exact ⟨rfl, rfl⟩

theorem answers_of_unknown (htexts : texts.lookup name = none)
    (hprompts : prompts.lookup name = none) :
    Answers name vars (answer l (.text name) vars) := by
  have hoccurs : (Value.text name).occursIn (.object prompts) = .ok false := by
    simp [Value.occursIn, Value.holds, hprompts]
  simp only [answer, (library_kept hl hkept).2, ok_bind, hoccurs]
  exact .unknown htexts

theorem answers_of_known {text : String} (htexts : texts.lookup name = some (gaps, last))
    (hdefault : default.Distinct) (hown : prompts.lookup name = some (.object own))
    (hdistinct : own.Distinct) (huser : own.lookup "user" = some (.text text))
    (htext : text.toList = source gaps last) (hgaps : gaps.all Gap.isPlain)
    (hlast : last.all isWordSign) : Answers name vars (answer l (.text name) vars) := by
  obtain ⟨hdef, hheld⟩ := library_kept hl hkept
  have hoccurs : (Value.text name).occursIn (.object prompts) = .ok true := by
    simp [Value.occursIn, Value.holds, hown]
  have hmember : (Value.object prompts).memberAt (.text name) = .ok (.object own) :=
    Value.member_object hown
  simp only [answer, hheld, ok_bind, hoccurs, hmember, hdef, filled_object huser htext hgaps hlast]
  cases hparts : gaps.mapM (Gap.shown vars) with
  | error f =>
    obtain ⟨before, g, after, rfl, hsome, hnone, rfl⟩ := exists_gap_of_error hparts
    exact .lacking htexts hsome hnone
  | ok parts =>
    let new := own.put "user" (String.ofList (parts.flatten ++ last))
    have hpairs : Value.ofPairs (default.map Value.pairOf ++ new.map Value.pairOf) =
        .object (default.merge new) := by
      rw [← map_append, Value.ofPairs_map_pairOf, Entries.ofList_append,
        Entries.ofList_of_distinct hdefault]
    have hlookup := Entries.lookup_merge
      (hdistinct.put "user" (String.ofList (parts.flatten ++ last))) default
    change Answers name vars
      (.ok (Value.ofPairs (default.map Value.pairOf ++ new.map Value.pairOf)))
    rw [hpairs]
    refine .made htexts (mapM_eq_ok_iff.mp hparts) hkept hown ?_ fun key hkey => ?_
    · rw [hlookup, Entries.lookup_put]
      simp
    · rw [hlookup, Entries.lookup_put, if_neg (by simpa using hkey)]

end Answers

theorem all_ofList {p : Char → Bool} {cs : Chars} (h : cs.all p) :
    (String.ofList cs).toList.all p := by
  rwa [String.toList_ofList]

theorem answers_standard {l : Library} (hl : Library.ofValue standard = .ok l) (name : String)
    (vars : Entries) : Answers name vars (answer l (.text name) vars) := by
  have hdistinct (a b c : Value) :
      Entries.Distinct [("system", a), ("user", b), ("temperature", c)] := by simp [Entries.Distinct]
  by_cases hreview : name = "code_review"
  · subst hreview
    exact answers_of_known hl rfl rfl (by simp [Entries.Distinct]) rfl (hdistinct _ _ _) rfl
      String.toList_ofList (by decide) rfl
  by_cases hproject : name = "project_analysis"
  · subst hproject
    refine answers_of_known hl rfl rfl (by simp [Entries.Distinct]) rfl (hdistinct _ _ _) rfl
      (toList_gap rfl (toList_gap rfl rfl)) (by decide) ?_
    simp only [-String.reduceToList, String.toList_append, all_append, Bool.and_eq_true]
    exact ⟨⟨⟨all_ofList rfl, all_ofList rfl⟩, all_ofList rfl⟩, all_ofList rfl⟩
  · have hnone {α : Type} (a b : α) :
        lookup name [("code_review", a), ("project_analysis", b)] = none := by
      simp only [lookup_cons, beq_false_of_ne hreview, beq_false_of_ne hproject, lookup_nil]
    exact answers_of_unknown hl rfl (hnone _ _) (hnone _ _)

/-- Whatever the calls before a call were, and whether or not they failed, it is answered by its
own name and variables, as the first call of all would be. The templates and the default stay as
they were read, though each call writes into a dictionary. -/
theorem prompts_answered : ∃ l, Library.ofValue standard = .ok l ∧
    ∀ calls : List (String × Entries),
      (l.run calls).2.templates = standard ∧ (l.run calls).2.default = l.default ∧
      (l.run calls).1 = (calls.map fun call => (l.get (.text call.1) call.2).1) ∧
      Forall₂ (fun call answer => Answers call.1 call.2 answer) calls (l.run calls).1 := by
  refine ⟨_, rfl, fun calls => ?_⟩
  generalize hl : Library.mk _ _ _ = l
  have hstandard : Library.ofValue standard = .ok l := by rw [← hl]; rfl
  obtain ⟨made, hrun⟩ := l.run_eq calls
  rw [hrun]
  refine ⟨by rw [← hl], rfl, map_congr_left fun call _ => ?_, ?_⟩
  · obtain ⟨_, hget⟩ := l.get_eq (.text call.1) call.2
    rw [hget]
  · exact forall₂_map_right_iff.mpr (forall₂_same.mpr fun call _ => answers_standard hstandard _ _)

end CodeAudit.Prompt

import CodeAudit.Proofs.JsonReading
import CodeAudit.Vault

/-! The file of a vault says what the vault holds: a second vault that is opened from it holds the
same secrets, unless the last call that had to write failed. -/

namespace CodeAudit

open Value Function

variable {entries : Entries} {name : String}

open List

namespace Entries

theorem Distinct.erase (h : Distinct entries) (key : String) : Distinct (entries.erase key) :=
  h.sublist (filter_sublist.map Prod.fst)

theorem lookup_erase (key other : String) (entries : Entries) :
    (entries.erase key).lookup other = if other == key then none else entries.lookup other := by
  have herase : entries.erase key = Keyed.erase key entries := by
    apply filter_congr
    intro e _
    by_cases hk : key = e.1
    · simp [hk]
    · simp [hk, show ¬ e.1 = key from fun h => hk h.symm]
  rw [herase]
  exact Keyed.get?_erase key other entries

theorem erase_of_none (h : entries.lookup name = none) : entries.erase name = entries := by
  apply filter_eq_self.mpr
  intro e he
  have hother := lookup_eq_none_iff.mp h e he
  exact decide_eq_true fun hsame => by simp [hsame] at hother

end Entries

namespace Value

theorem removeAt_object (h : entries.Distinct) (name : String) :
    (object entries).removeAt (.text name) = .ok (.object (entries.erase name)) := by
  have hfilter : (entries.map pairOf).filter (fun e => !(text name).equals e.1) =
      (entries.erase name).map pairOf := by
    rw [filter_map]
    congr 1
    apply filter_congr
    intro e _
    by_cases hk : name = e.1
    · simp [pairOf, equals, hk]
    · simp [pairOf, equals, hk, show ¬ e.1 = name from fun h => hk h.symm]
  change Except.ok (ofPairs ((entries.map pairOf).filter fun e => !(text name).equals e.1)) = _
  rw [hfilter, ofPairs_map_pairOf, Entries.ofList_of_distinct (h.erase name)]

end Value

namespace Vault

variable {v : Vault} {entries : Entries}

def held (v : Vault) (name : String) : Option Value :=
  match v.secrets with
  | .object entries => entries.lookup name
  | _ => none

def Sound (v : Vault) : Prop := ∃ entries : Entries, v.secrets = .object entries ∧ entries.Distinct

theorem held_object (h : v.secrets = .object entries) : v.held = fun name => entries.lookup name := by
  funext name
  simp only [held, h]

theorem get_of_sound (h : v.Sound) (name : String) (default : Value) :
    v.get (.text name) default = .ok ((v.held name).getD default) := by
  obtain ⟨entries, hobject, -⟩ := h
  rw [get, hobject, fetchAt_object, held_object hobject]

structure Updated (v v' : Vault) (content : String → Option Value) : Prop where
  sound : v'.Sound
  writable : v'.writable = v.writable
  held : v'.held = content
  saved : v.writable = true → v'.file = some (.sealed (v'.sealedWith v'.key))

theorem updated_save (v : Vault) (h : entries.Distinct) :
    ∃ v', save { v with secrets := .object entries } = (v.save.1, v') ∧
      Updated v v' fun name => entries.lookup name := by
  unfold save
  split_ifs with hw
  · exact ⟨_, rfl, ⟨entries, rfl, h⟩, rfl, rfl, fun _ => rfl⟩
  · exact ⟨_, rfl, ⟨entries, rfl, h⟩, rfl, rfl, fun hyes => absurd hyes hw⟩

theorem save_of_writable (h : v.writable) : v.save.1 = .ok () := by rw [save, if_pos h]

theorem save_of_unwritable (h : v.writable = false) :
    v.save.1 = .error (.missingFile "No such file or directory") := by
  simp [save, h]

theorem set_of_sound (h : v.Sound) (name : String) (secret : Value) :
    ∃ v', v.set (.text name) secret = (v.save.1, v') ∧ Updated v v' (update v.held name (some secret)) := by
  obtain ⟨entries, hobject, hdistinct⟩ := h
  obtain ⟨v', hsave, hupdated⟩ := updated_save v (hdistinct.put name secret)
  have hput : v.secrets.assignAt (.text name) secret = .ok (.object (entries.put name secret)) := by
    rw [hobject]
    rfl
  refine ⟨v', by simp only [set, hput, hsave], { hupdated with held := ?_ }⟩
  rw [hupdated.held, held_object hobject]
  funext other
  rw [Entries.lookup_put, update_apply]
  simp

theorem delete_of_none (h : v.Sound) (hn : v.held name = none) : v.delete (.text name) = (.ok (), v) := by
  obtain ⟨entries, hobject, -⟩ := h
  rw [held_object hobject] at hn
  simp [delete, hobject, occursIn, holds, hn]

theorem delete_of_some (h : v.Sound) {secret : Value} (hn : v.held name = some secret) :
    ∃ v', v.delete (.text name) = (v.save.1, v') ∧ Updated v v' (update v.held name none) := by
  obtain ⟨entries, hobject, hdistinct⟩ := h
  obtain ⟨v', hsave, hupdated⟩ := updated_save v (hdistinct.erase name)
  rw [held_object hobject] at hn ⊢
  refine ⟨v', ?_, { hupdated with held := ?_ }⟩
  · simp only [delete, hobject, occursIn, holds, hn, Option.isSome_some,
      removeAt_object hdistinct name, hsave]
  · rw [hupdated.held]
    funext other
    rw [Entries.lookup_erase, update_apply]
    simp

theorem held_delete (h : v.Sound) (name : String) :
    (v.delete (.text name)).2.Sound ∧ (v.delete (.text name)).2.held = update v.held name none := by
  cases hn : v.held name with
  | none =>
    rw [delete_of_none h hn, ← hn, update_eq_self]
    exact ⟨h, rfl⟩
  | some secret =>
    obtain ⟨v', hdelete, hupdated⟩ := delete_of_some h hn
    rw [hdelete]
    exact ⟨hupdated.sound, hupdated.held⟩

end Vault

end CodeAudit

namespace CodeAudit.Vault

open Json Vault Entries Sealed

inductive Call where
  | set (name : String) (secret : Value)
  | delete (name : String)
  | rotate
  | clear

inductive Step where
  | call (c : Call)
  | access (writable : Bool)

def ask (v : Vault) : Call → Outcome Unit × Vault
  | .set name secret => v.set (.text name) secret
  | .delete name => v.delete (.text name)
  | .rotate => v.rotate
  | .clear => (.ok (), v.clear)

def next (v : Vault) : Step → Vault
  | .call c => (v.ask c).2
  | .access writable => { v with writable }

def after (v : Vault) (steps : List Step) : Vault := steps.foldl next v

def isNamed (v : Vault) : Bool :=
  match v.secrets with
  | .object _ => true
  | _ => false

def changesFile (v : Vault) : Call → Bool
  | .set _ _ => v.isNamed
  | .delete name => (v.held name).isSome
  | .rotate | .clear => true

def doneAfter (v : Vault) (done : Bool) : Step → Bool
  | .call c => if v.changesFile c then (v.ask c).1.isOk else done
  | .access _ => done

def lastChangeDone (v : Vault) (done : Bool) : List Step → Bool
  | [] => done
  | s :: rest => lastChangeDone (v.next s) (v.doneAfter done s) rest

def Step.IsSerialisable : Step → Prop
  | .call (.set _ secret) => isDocument (maxDepth - 1) secret = true
  | _ => True

def Call.on (c : Call) (secrets : Value) : Value :=
  match c, secrets with
  | .set name secret, .object entries => .object (put name secret entries)
  | .delete name, .object entries => .object (erase name entries)
  | .clear, _ => .object []
  | _, _ => secrets

def Step.on (secrets : Value) : Step → Value
  | .call c => c.on secrets
  | .access _ => secrets

/-- A vault under a phrase whose secrets can be written, and whose file says what they are if the
last change of the file was done. -/
structure Kept (phrase : String) (secrets : Value) (v : Vault) (done : Bool) : Prop where
  samePhrase : v.phrase = phrase
  key : keyOf phrase = .ok v.key
  sameSecrets : v.secrets = secrets
  document : isDocument maxDepth secrets = true
  file : done = true → secretsOf v.key v.file = secrets

theorem isDocument_empty : isDocument maxDepth (.object []) :=
  isDocument_object.mpr ⟨by decide, List.nodup_nil, by simp⟩

theorem isDocument_secretsOf (key : String) (file : Option VaultFile) : isDocument maxDepth (secretsOf key file) := by
  cases file with
  | none => exact isDocument_empty
  | some content =>
    cases content with
    | junk => exact isDocument_empty
    | sealed s =>
      rw [secretsOf]
      cases hread : s.reveal key >>= parse with
      | error f => exact isDocument_empty
      | ok v =>
        obtain ⟨text, -, hparse⟩ := bind_eq_ok_iff.mp hread
        exact isDocument_of_parse hparse

variable {file : Option VaultFile} {v : Vault} {c : Call} {secrets : Value} {key : String}

theorem openFile_eq_ok_iff {phrase : String} : openFile phrase file = .ok v ↔
      ∃ key, keyOf phrase = .ok key ∧ v = { phrase, key, secrets := secretsOf key file, file } := by
  rw [openFile, bind_eq_ok_iff]
  exact exists_congr fun key => and_congr_right fun _ => by simp [eq_comm]

theorem secretsOf_sealedWith (h : isDocument maxDepth v.secrets) :
    secretsOf v.key (some (.sealed (v.sealedWith v.key))) = v.secrets := by
  rw [secretsOf, sealedWith, reveal_self]
  change (parse (write {} v.secrets)).toOption.getD (.object []) = _
  rw [parse_write {} rfl h]
  rfl

theorem isNamed_iff : v.isNamed ↔ ∃ entries, v.secrets = .object entries := by
  cases hsecrets : v.secrets <;> simp [isNamed, hsecrets]

theorem isDocument_on (hdoc : isDocument maxDepth secrets)
    (hc : (Step.call c).IsSerialisable) : isDocument maxDepth (c.on secrets) := by
  cases hsecrets : secrets with
  | object entries =>
    rw [hsecrets] at hdoc
    obtain ⟨hlevels, hdistinct, hentries⟩ := isDocument_object.mp hdoc
    cases c with
    | set name secret =>
      refine isDocument_object.mpr ⟨hlevels, hdistinct.put name secret, ?_⟩
      intro e he
      rcases mem_put he with rfl | hold
      · exact hc
      · exact hentries e hold
    | delete name =>
      refine isDocument_object.mpr ⟨hlevels, hdistinct.erase name, ?_⟩
      intro e he
      exact hentries e (List.mem_of_mem_filter he)
    | rotate => exact hdoc
    | clear => exact isDocument_empty
  | _ =>
    rw [hsecrets] at hdoc
    cases c with
    | clear => exact isDocument_empty
    | _ => exact hdoc

section Steps

variable {phrase name : String} {secrets : Value} {v : Vault} {done : Bool} {entries : Entries}

theorem kept_openFile (h : openFile phrase file = .ok v) : Kept phrase v.secrets v true := by
  obtain ⟨key, hkey, rfl⟩ := openFile_eq_ok_iff.mp h
  exact ⟨rfl, hkey, rfl, isDocument_secretsOf key file, fun _ => rfl⟩

theorem Kept.save (h : Kept phrase secrets v done) {changed : Value} (hdoc : isDocument maxDepth changed) :
    Kept phrase changed (save { v with secrets := changed }).2
      (save { v with secrets := changed }).1.isOk := by
  unfold Vault.save
  split_ifs with hw
  · exact ⟨h.samePhrase, h.key, rfl, hdoc, fun _ => secretsOf_sealedWith hdoc⟩
  · exact ⟨h.samePhrase, h.key, rfl, hdoc, fun hno => by simp [Except.isOk, Except.toBool] at hno⟩

theorem set_of_named (hnamed : v.secrets = .object entries) (name : String) (secret : Value) :
    v.set (.text name) secret = save { v with secrets := .object (entries.put name secret) } := by
  simp only [set, hnamed, Value.assignAt, Value.assign]

theorem delete_of_held (hnamed : v.secrets = .object entries) (hdistinct : entries.Distinct)
    (hheld : (v.held name).isSome) :
    v.delete (.text name) = save { v with secrets := .object (entries.erase name) } := by
  rw [held_object hnamed] at hheld
  simp only [delete, hnamed, Value.occursIn, Value.holds, hheld, Value.removeAt_object hdistinct name]

theorem set_of_unnamed (hunnamed : v.isNamed = false) (hdoc : isDocument maxDepth v.secrets) (name : String)
    (secret : Value) : (v.set (.text name) secret).2 = v := by
  cases hsecrets : v.secrets with
  | object entries => simp [isNamed, hsecrets] at hunnamed
  | mapping pairs => simp [isDocument, hsecrets] at hdoc
  | _ => simp [set, hsecrets, Value.assignAt, Value.assign]

theorem delete_of_unnamed (hunnamed : v.isNamed = false) (hdoc : isDocument maxDepth v.secrets)
    (name : String) : (v.delete (.text name)).2 = v := by
  cases hsecrets : v.secrets with
  | object entries => simp [isNamed, hsecrets] at hunnamed
  | mapping pairs => simp [isDocument, hsecrets] at hdoc
  | list items =>
    simp only [delete, hsecrets]
    split <;> rfl
  | text s =>
    simp only [delete, hsecrets]
    split <;> rfl
  | _ => simp [delete, hsecrets, Value.occursIn, Value.holds]

variable (h : Kept phrase secrets v done)

include h

theorem rotate_same_key : v.rotate = v.save := by
  simp only [rotate, sealedWith, h.samePhrase, h.key, ok_bind, pure_eq_ok, reveal_self]
  rw [← h.samePhrase]

omit h in
theorem on_unnamed (hunnamed : v.isNamed = false) (name : String) (secret : Value) :
    (Call.set name secret).on v.secrets = v.secrets ∧ (Call.delete name).on v.secrets = v.secrets := by
  cases hsecrets : v.secrets with
  | object entries => simp [isNamed, hsecrets] at hunnamed
  | _ => exact ⟨rfl, rfl⟩

theorem ask_of_idle (hidle : v.changesFile c = false) : (v.ask c).2 = v ∧ c.on v.secrets = v.secrets := by
  have hdoc : isDocument maxDepth v.secrets := h.sameSecrets ▸ h.document
  cases c with
  | set name secret => exact ⟨set_of_unnamed hidle hdoc name secret, (on_unnamed hidle name secret).1⟩
  | delete name =>
    have hnone : v.held name = none := by simpa [changesFile] using hidle
    cases hnamed : v.isNamed with
    | false => exact ⟨delete_of_unnamed hnamed hdoc name, (on_unnamed hnamed name .null).2⟩
    | true =>
      obtain ⟨entries, hsecrets⟩ := isNamed_iff.mp hnamed
      rw [hsecrets] at hdoc ⊢
      have hsame := delete_of_none ⟨entries, hsecrets, (isDocument_object.mp hdoc).2.1⟩ hnone
      rw [held_object hsecrets] at hnone
      exact ⟨congrArg Prod.snd hsame, congrArg Value.object (erase_of_none hnone)⟩
  | rotate => simp [changesFile] at hidle
  | clear => simp [changesFile] at hidle

omit h in
theorem isNamed_of_held (h : (v.held name).isSome) : v.isNamed := by
  cases hsecrets : v.secrets <;> simp_all [held, isNamed]

theorem ask_of_change (hchange : v.changesFile c) :
    c = .clear ∨ v.ask c = save { v with secrets := c.on v.secrets } := by
  cases c with
  | set name secret =>
    obtain ⟨entries, hsecrets⟩ := isNamed_iff.mp hchange
    rw [hsecrets]
    exact .inr (set_of_named hsecrets name secret)
  | delete name =>
    obtain ⟨entries, hsecrets⟩ := isNamed_iff.mp (isNamed_of_held hchange)
    have hdoc : isDocument maxDepth v.secrets := h.sameSecrets ▸ h.document
    rw [hsecrets] at hdoc ⊢
    exact .inr (delete_of_held hsecrets (isDocument_object.mp hdoc).2.1 hchange)
  | rotate => exact .inr (rotate_same_key h)
  | clear => exact .inl rfl

theorem Kept.next {s : Step} (hs : s.IsSerialisable) :
    Kept phrase (s.on secrets) (v.next s) (v.doneAfter done s) := by
  cases s with
  | access writable => exact ⟨h.samePhrase, h.key, h.sameSecrets, h.document, h.file⟩
  | call c =>
    rw [Vault.next, doneAfter, Step.on, ← h.sameSecrets]
    cases hchange : v.changesFile c with
    | false =>
      obtain ⟨hsame, hon⟩ := ask_of_idle h hchange
      rw [hsame, hon, h.sameSecrets]
      exact h
    | true =>
      rcases ask_of_change h hchange with rfl | hsave
      · exact ⟨h.samePhrase, h.key, rfl, isDocument_empty, fun _ => rfl⟩
      · rw [hsave, h.sameSecrets]
        exact h.save (isDocument_on h.document hs)

theorem Kept.after {steps : List Step} (hsteps : ∀ s ∈ steps, s.IsSerialisable) :
    Kept phrase (steps.foldl Step.on secrets) (v.after steps) (v.lastChangeDone done steps) := by
  induction steps generalizing secrets v done with
  | nil => exact h
  | cons s rest ih =>
    have hfirst := h.next (hsteps s List.mem_cons_self)
    exact ih hfirst fun s' hs' => hsteps s' (List.mem_cons_of_mem s hs')

omit h

/-- A vault that is opened from the file of another with the same phrase holds the same secrets, if
the last call that had to change the file returned normally. As long as the file can be written,
these are the secrets that the calls have made. -/
theorem reopened_secrets {file : Option VaultFile} (hopen : openFile phrase file = .ok v)
    {steps : List Step} (hsteps : ∀ s ∈ steps, s.IsSerialisable)
    (hdone : v.lastChangeDone true steps = true) :
    (∃ second, openFile phrase (v.after steps).file = .ok second ∧
      second.secrets = (v.after steps).secrets) ∧
      (.access false ∉ steps → (v.after steps).secrets = steps.foldl Step.on v.secrets) := by
  have hkept := (kept_openFile hopen).after hsteps
  have hfile := hkept.file hdone
  refine ⟨⟨_, openFile_eq_ok_iff.mpr ⟨_, hkept.key, rfl⟩, ?_⟩, fun _ => hkept.sameSecrets⟩
  rw [hkept.sameSecrets]
  exact hfile

end Steps

def twoHeld : Value := .object [("a", .text "x"), ("b", .object [("n", .int 1)])]

def twoHeldOpened : Vault where
  phrase := "phrase"
  key := "phrase"
  secrets := twoHeld
  file := some (.sealed ⟨"phrase", write {} twoHeld⟩)

theorem openFile_twoHeld :
    openFile "phrase" (some (.sealed ⟨"phrase", write {} twoHeld⟩)) = .ok twoHeldOpened := by
  have hdoc : isDocument maxDepth twoHeldOpened.secrets := by decide
  have hsecrets := secretsOf_sealedWith hdoc
  refine openFile_eq_ok_iff.mpr ⟨"phrase", rfl, ?_⟩
  exact congrArg (fun secrets => { twoHeldOpened with secrets }) hsecrets.symm

def someCalls : List Step :=
  [.call (.set "d" (.list [.null])), .call (.delete "a"), .call .rotate, .call (.delete "z")]

theorem isSerialisable_someCalls : ∀ s ∈ someCalls, s.IsSerialisable := by
  simp [someCalls, Step.IsSerialisable, isDocument, areDocuments, maxDepth]

theorem reopened_secrets_someCalls :
    openFile "phrase" (some (.sealed ⟨"phrase", Json.write {} twoHeld⟩)) = .ok twoHeldOpened ∧
    (∀ s ∈ someCalls, s.IsSerialisable) ∧ twoHeldOpened.lastChangeDone true someCalls = true ∧
    ∃ second, openFile "phrase" (twoHeldOpened.after someCalls).file = .ok second ∧
      second.secrets = .object [("b", .object [("n", .int 1)]), ("d", .list [.null])] := by
  have hsteps := isSerialisable_someCalls
  have hdone : twoHeldOpened.lastChangeDone true someCalls = true := by decide +kernel
  obtain ⟨⟨second, hopen, hsame⟩, hmade⟩ := reopened_secrets openFile_twoHeld hsteps hdone
  have hsecrets := hmade (by simp [someCalls])
  exact ⟨openFile_twoHeld, hsteps, hdone, second, hopen, hsame.trans hsecrets⟩

def bare : Vault where
  phrase := "phrase"
  key := "phrase"

def LeavesOther (r : Outcome Unit × Vault) : Prop :=
  r.1 = .ok () ∧ ∃ second, openFile r.2.phrase r.2.file = .ok second ∧ second.secrets ≠ r.2.secrets

theorem leavesOther_of_not_document {r : Outcome Unit × Vault} (hok : r.1 = .ok ())
    (hkey : keyOf r.2.phrase = .ok key) (hother : isDocument maxDepth r.2.secrets = false) : LeavesOther r := by
  refine ⟨hok, _, openFile_eq_ok_iff.mpr ⟨key, hkey, rfl⟩, ?_⟩
  intro hsame
  have hread := isDocument_secretsOf key r.2.file
  rw [show secretsOf key r.2.file = r.2.secrets from hsame, hother] at hread
  exact absurd hread (by decide)

/-- A secret whose writing failed stays in the vault, and a later call that has nothing to write
does not tell. A name that is no text is another name when the file is read. -/
theorem reopened_secrets_amiss : ∃ first, openFile "phrase" none = .ok first ∧
    (∃ steps name, (∀ s ∈ steps, s.IsSerialisable) ∧
      LeavesOther ((first.after steps).delete (.text name))) ∧
    ∃ name secret, LeavesOther (first.set name secret) := by
  refine ⟨bare, rfl, ?_, ?_⟩
  · refine ⟨[.access false, .call (.set "a" (.text "x"))], "b", ?_, by decide, _, rfl, ?_⟩
    · simp [Step.IsSerialisable, isDocument]
    · have hempty : secretsOf "phrase" none = .object [] := rfl
      change secretsOf "phrase" none ≠ .object [("a", .text "x")]
      simp [hempty]
  · have hsecrets : (bare.set (.int 1) (.text "x")).2.secrets = .mapping [(.int 1, .text "x")] := rfl
    refine ⟨.int 1, .text "x", leavesOther_of_not_document (by decide) rfl ?_⟩
    rw [hsecrets, isDocument]

/-! Two things that a vault does not do: move its secrets to another key, and take back a change
that could not be written. -/

variable {v : Vault} {name phrase : String} {content : Option Value}

/-- Rotation with a phrase in the environment moves the secrets: the file can then be opened with
that phrase. -/
def MovesTo (v : Vault) (phrase : String) : Prop :=
  let r := rotate { v with phrase }
  r.1 = .ok () ∧ ∃ second, openFile phrase r.2.file = .ok second ∧ second.secrets = v.secrets

theorem rotate_of_other (h : phrase ≠ v.key) : ∃ f, rotate { v with phrase } = (.error f, { v with phrase }) ∧
    (phrase.isEmpty = false → f = .badSeal) := by
  unfold rotate keyOf
  cases hempty : phrase.isEmpty with
  | true => exact ⟨_, rfl, by simp⟩
  | false =>
    simp [sealedWith, reveal, Ne.symm h]

theorem keyOf_eq_ok (h : keyOf phrase = .ok key) : key = phrase := by
  unfold keyOf at h
  split_ifs at h
  exact (Except.ok.inj h).symm

theorem movesTo_of_kept {done : Bool} (h : Kept phrase secrets v done)
    (hwritable : v.writable) : v.MovesTo phrase := by
  have hsame : ({ v with phrase } : Vault) = v := by rw [← h.samePhrase]
  rw [MovesTo, hsame, rotate_same_key h, save, if_pos hwritable]
  exact ⟨rfl, _, openFile_eq_ok_iff.mpr ⟨_, h.key, rfl⟩, secretsOf_sealedWith (h.sameSecrets ▸ h.document)⟩

theorem secrets_of_other {plain : String} {second : Vault} (h : phrase ≠ v.key)
    (hopen : openFile phrase (some (.sealed ⟨v.key, plain⟩)) = .ok second) : second.secrets = .object [] := by
  obtain ⟨key, hkey, rfl⟩ := openFile_eq_ok_iff.mp hopen
  obtain rfl := keyOf_eq_ok hkey
  simp [secretsOf, reveal, Ne.symm h, Except.toOption]

/-- Whatever was done before, rotation moves the secrets to a phrase exactly if the vault was opened
with that phrase. With any other it fails, and key, secrets and file are what they were. Nor does it
help to open the file with the other phrase first: no secrets are found then, and rotation writes
these. -/
theorem moved_iff_same_phrase {old : String} {file : Option VaultFile} {first : Vault}
    (hopen : openFile old file = .ok first) {steps : List Step}
    (hsteps : ∀ s ∈ steps, s.IsSerialisable) (hwritable : (first.after steps).writable = true)
    (phrase : String) :
    let v := first.after steps
    (v.MovesTo phrase ↔ phrase = old) ∧
    (phrase ≠ old →
      (∃ f, rotate { v with phrase } = (.error f, { v with phrase }) ∧ (phrase.isEmpty = false → f = .badSeal)) ∧
      ∀ second, openFile phrase v.save.2.file = .ok second →
        second.secrets = .object [] ∧ second.MovesTo phrase) := by
  intro v
  have hkept := (kept_openFile hopen).after hsteps
  have hkey (h : phrase ≠ old) : phrase ≠ v.key := keyOf_eq_ok hkept.key ▸ h
  refine ⟨⟨fun hmoves => ?_, ?_⟩, fun h => ⟨rotate_of_other (hkey h), fun second hsecond => ?_⟩⟩
  · by_contra h
    obtain ⟨f, hfails, -⟩ := rotate_of_other (hkey h)
    have hok := hmoves.1
    rw [hfails] at hok
    cases hok
  · rintro rfl
    exact movesTo_of_kept hkept hwritable
  · have hwritten : second.writable = true := by
      obtain ⟨_, _, rfl⟩ := openFile_eq_ok_iff.mp hsecond
      rfl
    refine ⟨?_, movesTo_of_kept (kept_openFile hsecond) hwritten⟩
    rw [save, if_pos hwritable] at hsecond
    exact secrets_of_other (hkey h) hsecond

theorem moved_iff_same_phrase_someCalls : (twoHeldOpened.after someCalls).writable = true ∧
      (twoHeldOpened.after someCalls).MovesTo "phrase" ∧
      ¬ (twoHeldOpened.after someCalls).MovesTo "other" := by
  have hwritable : (twoHeldOpened.after someCalls).writable = true := by decide +kernel
  have hmoved := moved_iff_same_phrase openFile_twoHeld isSerialisable_someCalls hwritable
  exact ⟨hwritable, (hmoved "phrase").1.mpr rfl, fun h => absurd ((hmoved "other").1.mp h) (by decide)⟩

/-- A rotation to another phrase fails, and one by a newly opened vault loses the secrets. -/
theorem secret_not_moved : ∃ v, openFile "phrase" none = .ok v ∧
    let held := (v.set (.text "a") (.text "x")).2
    (rotate { held with phrase := "other" }).1 = .error .badSeal ∧ ¬ held.MovesTo "other" ∧
    ∃ second, openFile "other" held.file = .ok second ∧ second.MovesTo "other" ∧ second.secrets ≠ held.secrets := by
  have hfails : (rotate { (bare.set (.text "a") (.text "x")).2 with phrase := "other" }).1 = .error .badSeal := by
    decide
  obtain ⟨second, hopen⟩ : ∃ second, openFile "other" (bare.set (.text "a") (.text "x")).2.file = .ok second :=
    ⟨_, openFile_eq_ok_iff.mpr ⟨_, rfl, rfl⟩⟩
  have hsecrets : second.secrets = .object [] := secrets_of_other (v := bare) (by decide) hopen
  refine ⟨bare, rfl, hfails, fun h => ?_, second, hopen, movesTo_of_kept (kept_openFile hopen) ?_, ?_⟩
  · cases hfails.symm.trans h.1
  · obtain ⟨_, _, rfl⟩ := openFile_eq_ok_iff.mp hopen
    rfl
  · change second.secrets ≠ .object [("a", .text "x")]
    simp [hsecrets]

/-! Changes that could not be written. -/

def SameAnswers (v v' : Vault) : Prop :=
  ∀ (key : String) (default : Value), v'.get (.text key) default = v.get (.text key) default

theorem get_updated {v' : Vault} (h : Updated v v' (Function.update v.held name content))
    (hv : v.Sound) (key : String) (default : Value) : v'.get (.text key) default =
      if key = name then .ok (content.getD default) else v.get (.text key) default := by
  rw [get_of_sound h.sound, get_of_sound hv, h.held, Function.update_apply]
  split_ifs <;> rfl

theorem sameAnswers_updated_iff {v' : Vault} (h : Updated v v' (Function.update v.held name content)) (hv : v.Sound) :
    SameAnswers v v' ↔ v.held name = content := by
  simp only [SameAnswers, get_updated h hv, get_of_sound hv]
  constructor
  · intro hsame
    have hnull := hsame name .null
    have hbool := hsame name (.bool true)
    cases hheld : v.held name <;> cases content <;> grind
  · rintro rfl key default
    split_ifs with hkey
    · rw [hkey]
    · rfl

theorem sound_of_unwritten (hdoc : isDocument maxDepth v.secrets) {secret : Value}
    (h : (v.set (.text name) secret).1 = .error .noFile ∨ (v.delete (.text name)).1 = .error .noFile) : v.Sound := by
  cases hsecrets : v.secrets with
  | object entries => exact ⟨entries, hsecrets, (isDocument_object.mp (hsecrets ▸ hdoc)).2.1⟩
  | mapping pairs => simp [isDocument, hsecrets] at hdoc
  | list _ | text _ =>
    simp only [set, delete, hsecrets, Value.occursIn, Value.holds, Value.removeAt] at h
    rcases h with h | h
    · cases h
    · split at h <;> simp_all [Value.cannot, Value.placeIn, Value.whole?]
  | _ =>
    simp only [set, delete, hsecrets] at h
    rcases h with h | h <;> cases h

/-- A change that could not be written is in force all the same. -/
theorem unwritten_change_in_force {file : Option VaultFile} {first : Vault}
    (hopen : openFile phrase file = .ok first) {steps : List Step}
    (hsteps : ∀ s ∈ steps, s.IsSerialisable) (name : String) :
    let v := first.after steps
    (∀ secret, (v.set (.text name) secret).1 = .error .noFile →
      (∀ key default, (v.set (.text name) secret).2.get (.text key) default =
        if key = name then .ok secret else v.get (.text key) default) ∧
      (SameAnswers v (v.set (.text name) secret).2 ↔ v.held name = some secret)) ∧
    ((v.delete (.text name)).1 = .error .noFile →
      (∀ key default, (v.delete (.text name)).2.get (.text key) default =
        if key = name then .ok default else v.get (.text key) default) ∧
      ¬ SameAnswers v (v.delete (.text name)).2) := by
  intro v
  have hkept := (kept_openFile hopen).after hsteps
  have hdoc : isDocument maxDepth v.secrets = true := hkept.sameSecrets ▸ hkept.document
  refine ⟨fun secret hfails => ?_, fun hfails => ?_⟩
  · have hsound := sound_of_unwritten hdoc (.inl hfails)
    obtain ⟨v', hset, hupdated⟩ := set_of_sound hsound name secret
    rw [hset]
    exact ⟨get_updated hupdated hsound, sameAnswers_updated_iff hupdated hsound⟩
  · have hsound := sound_of_unwritten hdoc (.inr hfails : (v.set (.text name) .null).1 = _ ∨ _)
    cases hheld : v.held name with
    | none =>
      rw [delete_of_none hsound hheld] at hfails
      cases hfails
    | some secret =>
      obtain ⟨v', hdelete, hupdated⟩ := delete_of_some hsound hheld
      rw [hdelete, sameAnswers_updated_iff hupdated hsound, hheld]
      exact ⟨get_updated hupdated hsound, by simp⟩

theorem unwritten_change_in_force_twoHeld : let v := (twoHeldOpened.after [.access false])
    (v.set (.text "c") .null).1 = .error .noFile ∧ ¬ SameAnswers v (v.set (.text "c") .null).2 ∧
      (v.delete (.text "a")).1 = .error .noFile ∧ ¬ SameAnswers v (v.delete (.text "a")).2 := by
  intro v
  have hsteps : ∀ s ∈ [Step.access false], s.IsSerialisable := by simp [Step.IsSerialisable]
  have hset : (v.set (.text "c") .null).1 = .error .noFile := by decide
  have hdelete : (v.delete (.text "a")).1 = .error .noFile := by decide
  have hnone : v.held "c" = none := rfl
  refine ⟨hset, fun hsame => ?_, hdelete, ((unwritten_change_in_force openFile_twoHeld hsteps "a").2 hdelete).2⟩
  have hheld := (((unwritten_change_in_force openFile_twoHeld hsteps "c").1 .null hset).2).mp hsame
  cases hnone.symm.trans hheld

/-- A secret that could not be written is answered afterwards. -/
theorem unwritten_secret_answered : ∃ v, openFile "phrase" none = .ok v ∧
    let v := { v with writable := false }
    (v.set (.text "a") (.text "x")).1 = .error .noFile ∧ ¬ SameAnswers v (v.set (.text "a") (.text "x")).2 := by
  have hsound : ({ bare with writable := false } : Vault).Sound := ⟨[], rfl, List.nodup_nil⟩
  refine ⟨bare, rfl, by decide, fun hsame => ?_⟩
  obtain ⟨v', hset, hupdated⟩ := set_of_sound hsound "a" (.text "x")
  rw [hset, sameAnswers_updated_iff hupdated hsound] at hsame
  cases hsame

end CodeAudit.Vault

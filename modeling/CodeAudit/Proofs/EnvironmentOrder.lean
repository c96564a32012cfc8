import CodeAudit.Proofs.JsonLine
import CodeAudit.Config.Settings

/-! The settings of the analyzers do not depend on the order of the variables of the environment. -/

namespace CodeAudit

open List

theorem foldl_of_commute {σ α : Type} {r : σ → σ → Prop} {f : σ → α → σ} (hr : Equivalence r)
    (hf : ∀ {s t} a, r s t → r (f s a) (f t a)) {as bs : List α} (hperm : as ~ bs)
    (hcomm : as.Pairwise fun a b => ∀ s, r (f (f s a) b) (f (f s b) a)) {s t : σ} (h : r s t) :
    r (as.foldl f s) (bs.foldl f t) := by
  have hsame (as : List α) {s t : σ} (h : r s t) : r (as.foldl f s) (as.foldl f t) := by
    induction as generalizing s t with
    | nil => exact h
    | cons a as ih => exact ih (hf a h)
  induction hperm generalizing s t with
  | nil => exact h
  | cons a _ ih => exact ih (pairwise_cons.mp hcomm).2 (hf a h)
  | swap a b as =>
    have hba := (pairwise_cons.mp hcomm).1 a mem_cons_self
    exact hsame as (hr.trans (hba s) (hf b (hf a h)))
  | trans hfirst _ ihfirst ihsecond =>
    have hmid := hfirst.pairwise hcomm fun hab s => hr.symm (hab s)
    exact hr.trans (ihfirst hcomm h) (ihsecond hmid (hr.refl t))

theorem meetsCased_append_mark (s t : List Char) : meetsCased (s ++ '_' :: t) = meetsCased s := by
  induction s with
  | nil => rfl
  | cons c s ih =>
    unfold meetsCased at ih ⊢
    by_cases hc : isSkipped c = true
    · simpa [hc] using ih
    · simp [hc]

theorem lowerChars_after_mark (before t s : List Char) :
    lowerChars (before ++ '_' :: t) s = lowerChars before s := by
  induction s generalizing before with
  | nil => rfl
  | cons c s ih =>
    rw [lowerChars, lowerChars, ← cons_append, ih, lowerSigma, lowerSigma, endsWord, endsWord, meetsCased_append_mark]

/-- A mark that is no letter parts what stands before and after it. -/
theorem lowerChars_mark (before s t : List Char) :
    lowerChars before (s ++ '_' :: t) = lowerChars before (s ++ ['_']) ++ lowerChars [] t := by
  induction s generalizing before with
  | nil => simp [lowerChars, show lowerChars ('_' :: before) t = _ from lowerChars_after_mark [] before t]
  | cons c s ih =>
    simp only [cons_append, lowerChars, ih, append_assoc, lowerSigma, endsWord, meetsCased_append_mark]

namespace Config

theorem Thresholds.set_comm (t : Thresholds) {name other : String} (h : name ≠ other) (v w : Value) :
    (t.set name v).set other w = (t.set other w).set name v := by
  unfold set
  split <;> split <;> first | rfl | exact absurd rfl h

namespace AnalyzerTable

theorem equals_text_iff {v : Value} {s : String} : v.equals (.text s) ↔ v = .text s := by
  cases v <;> simp [Value.equals, Value.number?]

variable {t u : AnalyzerTable} {key : Value} {name other : String} {f g : AnalyzerSettings → AnalyzerSettings}
  {e : Value × AnalyzerSettings}

theorem touch_fst : (touch key f e).1 = e.1 := by
  unfold touch
  split_ifs <;> rfl

theorem touch_comm (h : name ≠ other) : touch other g (touch name f e) = touch name f (touch other g e) := by
  unfold touch
  by_cases hname : e.1.equals (.text name) = true
  · have hother : e.1.equals (.text other) = false := by
      rw [equals_text_iff.mp hname]
      simpa [Value.equals] using h
    simp [hname, hother]
  · by_cases hother : e.1.equals (.text other) = true <;> simp [hname, hother]

theorem touch_touch : touch key g (touch key f e) = touch key (fun s => g (f s)) e := by
  unfold touch
  by_cases hkey : e.1.equals key <;> simp [hkey]

theorem touch_new (h : name ≠ other) (s : AnalyzerSettings) : touch name f (.text other, s) = (.text other, s) := by
  simp [touch, Value.equals, h.symm]

theorem any_map_touch (other : Value) :
    (t.map (touch key f)).any (·.1.equals other) = t.any (·.1.equals other) := by
  simp [Function.comp_def, touch_fst]

theorem any_adjust (h : name ≠ other) : (t.adjust name f).any (·.1.equals other) = t.any (·.1.equals other) := by
  unfold adjust
  split_ifs
  · exact any_map_touch _
  · simp [Value.equals, h]

theorem adjust_perm (h : t ~ u) : t.adjust key f ~ u.adjust key f := by
  unfold adjust
  rw [h.any_eq]
  split_ifs
  · exact h.map _
  · exact h.append_right _

theorem adjust_comm (h : name ≠ other) : (t.adjust name f).adjust other g ~ (t.adjust other g).adjust name f := by
  change (if (t.adjust name f).any (·.1.equals other) then _ else _) ~
    (if (t.adjust other g).any (·.1.equals name) then _ else _)
  rw [any_adjust h, any_adjust h.symm]
  unfold adjust
  split_ifs
  · simp only [map_map, Function.comp_def, touch_comm h, Perm.refl]
  · simp [touch_new h.symm]
  · simp [touch_new h]
  · simp only [append_assoc]
    exact .append_left _ (.swap ..)

theorem adjust_adjust : (t.adjust name f).adjust name g = t.adjust name fun s => g (f s) := by
  have hself : Value.equals (.text name) (.text name) := equals_text_iff.mpr rfl
  unfold adjust
  split_ifs with hname h h
  · simp [touch_touch]
  · exact absurd ((any_map_touch _).trans hname) h
  · have hkept : t.map (touch name g) = t := by
      refine (map_congr_left fun e he => ?_).trans (map_id _)
      exact if_neg fun heq => hname (any_eq_true.mpr ⟨e, he, heq⟩)
    simp [hkept, touch, hself]
  · simp [hself] at h

end AnalyzerTable

namespace AnalyzerConfig

structure Alike (c d : AnalyzerConfig) : Prop where
  thresholds : c.thresholds = d.thresholds
  analyzers : c.analyzers ~ d.analyzers

theorem alike_refl (c : AnalyzerConfig) : c.Alike c := ⟨rfl, .refl _⟩

theorem alike_equivalence : Equivalence Alike where
  refl := alike_refl
  symm h := ⟨h.thresholds.symm, h.analyzers.symm⟩
  trans h h' := ⟨h.thresholds.trans h'.thresholds, h.analyzers.trans h'.analyzers⟩

variable {c d : AnalyzerConfig}

theorem Alike.apply (h : Alike c d) (value : String) (s : Setting) : Alike (c.apply value s) (d.apply value s) := by
  cases s with
  | threshold name => exact ⟨by simp only [AnalyzerConfig.apply, h.thresholds], h.analyzers⟩
  | analyzer name part => exact ⟨h.thresholds, AnalyzerTable.adjust_perm h.analyzers⟩
  | other => exact h

theorem changeOf_comm {part other : String} (h : part ≠ other) (v w : String) (s : AnalyzerSettings) :
    changeOf other w (changeOf part v s) = changeOf part v (changeOf other w s) := by
  unfold changeOf
  split <;> split <;> first | rfl | exact absurd rfl h

/-- Two variables can change places unless they set the same. -/
theorem apply_comm {s t : Setting} (h : s = t → t = .other ∨ t = .threshold "") (v w : String) :
    Alike ((c.apply v s).apply w t) ((c.apply w t).apply v s) := by
  cases s with
  | other => exact alike_refl _
  | threshold name =>
    cases t with
    | threshold other =>
      refine ⟨?_, .refl _⟩
      by_cases hsame : name = other
      · obtain rfl : other = "" := by simpa [hsame] using h
        rfl
      · exact Thresholds.set_comm _ hsame _ _
    | _ => exact alike_refl _
  | analyzer name part =>
    cases t with
    | analyzer other part' =>
      refine ⟨rfl, ?_⟩
      by_cases hsame : name = other
      · subst hsame
        have hparts : part ≠ part' := by
          rintro rfl
          simp at h
        simp only [apply, AnalyzerTable.adjust_adjust, changeOf_comm hparts, Perm.refl]
      · exact AnalyzerTable.adjust_comm hsame
    | _ => exact alike_refl _

/-! Names that differ in small letters set different things. -/

theorem join_cons_cons (a b : String) (parts : List String) :
    Text.join "_" (a :: b :: parts) = a ++ "_" ++ Text.join "_" (b :: parts) := by
  simp [Text.join]

def Setting.text : Setting → String
  | .threshold name => "threshold" ++ "_" ++ name
  | .analyzer name part => name ++ "_" ++ part
  | .other => ""

def Setting.isIdle (s : Setting) : Prop := s = .other ∨ s = .threshold ""

/-- A setting that does something tells its name. -/
theorem join_of_ofParts (parts : List String) :
    (Setting.ofParts parts).isIdle ∨ Text.join "_" parts = (Setting.ofParts parts).text := by
  fun_cases Setting.ofParts parts with
  | case1 parts =>
    cases parts with
    | nil => exact .inl (.inr rfl)
    | cons part parts => exact .inr (join_cons_cons ..)
  | case2 first part parts _ => exact .inr (join_cons_cons ..)
  | case3 => exact .inl (.inl rfl)

theorem join_splitOn (s : String) : Text.join "_" (Text.splitOn '_' s) = s := by
  rw [← String.toList_inj]
  simp [Text.join, Text.splitOn, Chars.splitOn_eq]

variable {start name other : String}

theorem ofName_of_startsWith (h : Text.startsWith (start ++ "_") name) :
    ∃ rest, lowerText name = lowerText (start ++ "_") ++ rest ∧
      Setting.ofName start name = .ofParts (Text.splitOn '_' rest) := by
  obtain ⟨rest, hrest⟩ := Chars.startsWith_iff.mp h
  have hname : name = start ++ "_" ++ .ofList rest := by
    rw [← String.toList_inj, String.toList_append, String.toList_ofList, hrest]
  refine ⟨lowerText (.ofList rest), ?_, ?_⟩
  · rw [← String.toList_inj, hname]
    simp only [lowerText, String.toList_append, String.toList_ofList, append_assoc]
    exact lowerChars_mark [] start.toList rest
  · rw [Setting.ofName, if_pos h]
    have hdrop : Text.drop (start.length + 1) name = .ofList rest := by
      rw [Text.drop, ← hrest, drop_left' (by simp [String.length_toList])]
    rw [hdrop]

theorem lowerText_of_ofName (h : Setting.ofName start name = .ofName start other) :
    (Setting.ofName start other).isIdle ∨
      Text.startsWith (start ++ "_") name ∧ Text.startsWith (start ++ "_") other ∧
        lowerText name = lowerText other := by
  by_cases hother : Text.startsWith (start ++ "_") other
  swap
  · exact .inl (.inl (if_neg hother))
  by_cases hname : Text.startsWith (start ++ "_") name
  swap
  · exact .inl (.inl (h.symm.trans (if_neg hname)))
  obtain ⟨s, hs, hsetting⟩ := ofName_of_startsWith hname
  obtain ⟨s', hs', hsetting'⟩ := ofName_of_startsWith hother
  have htext := join_of_ofParts (Text.splitOn '_' s)
  have htext' := join_of_ofParts (Text.splitOn '_' s')
  rw [← hsetting, h, join_splitOn] at htext
  rw [← hsetting', join_splitOn] at htext'
  refine htext.elim .inl fun htext => htext'.imp_right fun htext' => ⟨hname, hother, ?_⟩
  rw [hs, hs', htext, htext']

theorem check_eq_ok_iff : c.check = .ok () ↔ c.thresholds.check = .ok () ∧ ∀ e ∈ c.analyzers, e.2.check = .ok () := by
  rw [check, bind_eq_ok_iff]
  simp only [forM_eq_ok_iff]
  constructor
  · rintro ⟨⟨⟩, h⟩
    exact h
  · exact fun h => ⟨(), h⟩

/-- However the variables of the environment are ordered, the settings are the same, provided that
no two names that start as those of the program do differ in the case of letters only. Settings that
fail the check are replaced by the usual ones under either order. -/
theorem load_perm (document : Outcome (Option Value)) (start : String) {env other : Environment}
    (hnames : env.Pairwise fun e e' => Text.startsWith (start ++ "_") e.1 →
    Text.startsWith (start ++ "_") e'.1 → lowerText e.1 ≠ lowerText e'.1)
    (hperm : env ~ other) :
    Alike (load document start env) (load document start other) := by
  unfold load
  cases read document with
  | error f => exact alike_refl _
  | ok c =>
    simp only [ok_bind, applyEnvironment, hperm.any_eq]
    split_ifs with hfixed
    · exact alike_refl _
    have hcomm : env.Pairwise fun e e' => ∀ c : AnalyzerConfig,
        Alike ((c.apply e.2 (.ofName start e.1)).apply e'.2 (.ofName start e'.1))
          ((c.apply e'.2 (.ofName start e'.1)).apply e.2 (.ofName start e.1)) := by
      refine hnames.imp fun {e e'} hne c => apply_comm (fun hsame => ?_) _ _
      exact (lowerText_of_ofName hsame).resolve_right fun ⟨hstart, hstart', hlower⟩ => hne hstart hstart' hlower
    have h := foldl_of_commute alike_equivalence
      (fun e h => h.apply e.2 (.ofName start e.1)) hperm hcomm (alike_refl c)
    generalize env.foldl _ c = d at h ⊢
    generalize other.foldl _ c = d' at h ⊢
    have hcheck : d.check = .ok () ↔ d'.check = .ok () := by
      rw [check_eq_ok_iff, check_eq_ok_iff, h.thresholds]
      exact and_congr_right fun _ => forall_congr' fun e => imp_congr_left h.analyzers.mem_iff
    simp only [ok_bind]
    cases hd : d.check with
    | ok => rwa [hcheck.mp hd]
    | error f =>
      cases hd' : d'.check with
      | ok => simp [hd, hd'] at hcheck
      | error f' => exact alike_refl _

theorem load_perm_new_analyzer : let env : Environment :=
      [("AUDITRON_LINT_ENABLED", "no"), ("AUDITRON_THRESHOLD_MAX_COMPLEXITY", "7"),
      ("AUDITRON_LINT_CONFIG_FILE", "a.ini")]
    Alike (load (.ok none) "AUDITRON" env) (load (.ok none) "AUDITRON" env.reverse) := by
  intro env
  exact load_perm (.ok none) "AUDITRON" (by decide) (reverse_perm env).symm

end AnalyzerConfig

end Config

end CodeAudit

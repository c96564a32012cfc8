import Mathlib.Data.List.Find
import Mathlib.Data.List.TakeWhile
import CodeAudit.Proofs.RequestChecks

/-! What the cleaning of a page leaves. A text is read as tags and the signs between them. -/

namespace CodeAudit.Guard

open List

def tagsOf : Chars → List Chars
  | [] => []
  | c :: rest =>
    if c = '<' then
      match h : tagAfter? rest with
      | some (tag, after) =>
        have := length_of_tagAfter? h
        tag :: tagsOf after
      | none => tagsOf rest
    else tagsOf rest
termination_by s => s.length

variable {x body rest s : Chars} {c : Char} {f : Chars → Chars}

def tagOf (body : Chars) : Chars := '<' :: (body ++ ['>'])

theorem tagAfter?_of_body (hne : body ≠ []) (h : '>' ∉ body) (after : Chars) :
    tagAfter? (body ++ '>' :: after) = some (tagOf body, after) := by
  have hall : ∀ c ∈ body, decide (c ≠ '>') := fun c hc => decide_eq_true fun he => h (he ▸ hc)
  have htake : (body ++ '>' :: after).takeWhile (· ≠ '>') = body := by
    rw [takeWhile_append_of_pos hall]
    simp
  have hdrop : (body ++ '>' :: after).dropWhile (· ≠ '>') = '>' :: after := by
    rw [dropWhile_append_of_pos hall]
    simp
  simp only [tagAfter?, htake, hdrop, List.isEmpty_iff, hne]
  rfl

theorem tagAfter?_cases (rest : Chars) : tagAfter? rest = none ∧ ('>' ∉ rest ∨ ∃ after, rest = '>' :: after) ∨
      ∃ body after, rest = body ++ '>' :: after ∧ body ≠ [] ∧ '>' ∉ body := by
  by_cases hmem : '>' ∈ rest
  · obtain ⟨body, after, rfl, hbody⟩ := eq_append_cons_of_mem hmem
    by_cases hnil : body = []
    · subst hnil
      exact .inl ⟨by simp [tagAfter?], .inr ⟨after, rfl⟩⟩
    · exact .inr ⟨body, after, rfl, hnil, hbody⟩
  · have hdrop : rest.dropWhile (· ≠ '>') = [] :=
      dropWhile_eq_nil_iff.mpr fun c hc => decide_eq_true fun he => hmem (he ▸ hc)
    exact .inl ⟨by simp only [tagAfter?, hdrop], .inl hmem⟩

theorem tagAfter?_eq_none_iff : tagAfter? rest = none ↔ '>' ∉ rest ∨ ∃ after, rest = '>' :: after := by
  rcases tagAfter?_cases rest with ⟨hnone, h⟩ | ⟨body, after, rfl, hne, hbody⟩
  · exact iff_of_true hnone h
  · rw [tagAfter?_of_body hne hbody]
    cases body <;> simp_all [eq_comm]

theorem page_induction {P : Chars → Prop} (nil : P [])
    (sign : ∀ c rest, (c = '<' → tagAfter? rest = none) → P rest → P (c :: rest))
    (tag : ∀ body after, body ≠ [] → '>' ∉ body → P after → P (tagOf body ++ after)) (s : Chars) : P s := by
  induction hn : s.length using Nat.strong_induction_on generalizing s with
  | h n ih =>
    subst hn
    cases s with
    | nil => exact nil
    | cons c rest =>
      have hrest := ih rest.length (by simp) rest rfl
      by_cases hc : c = '<'
      · subst hc
        rcases tagAfter?_cases rest with ⟨hnone, -⟩ | ⟨body, after, rfl, hne, hbody⟩
        · exact sign '<' rest (fun _ => hnone) hrest
        · simpa [tagOf] using tag body after hne hbody (ih after.length (by simp; omega) after rfl)
      · exact sign c rest (fun h => absurd h hc) hrest

section

variable (h : c = '<' → tagAfter? rest = none)

include h

theorem mapTags_sign : mapTags f (c :: rest) = c :: mapTags f rest := by
  rw [mapTags]
  split_ifs
  · split <;> simp_all
  · rfl

theorem tagsOf_sign : tagsOf (c :: rest) = tagsOf rest := by
  rw [tagsOf]
  split_ifs
  · split <;> simp_all
  · rfl

end

section

variable (hne : body ≠ []) (hbody : '>' ∉ body) (after : Chars)

include hne hbody

theorem mapTags_tag : mapTags f (tagOf body ++ after) = f (tagOf body) ++ mapTags f after := by
  have htag := tagAfter?_of_body hne hbody after
  rw [tagOf, cons_append, append_assoc, singleton_append, mapTags, if_pos rfl]
  split <;> simp_all [tagOf]

theorem tagsOf_tag : tagsOf (tagOf body ++ after) = tagOf body :: tagsOf after := by
  have htag := tagAfter?_of_body hne hbody after
  rw [tagOf, cons_append, append_assoc, singleton_append, tagsOf, if_pos rfl]
  split <;> simp_all [tagOf]

end

theorem tagsOf_append (hx : '<' ∉ x) (s : Chars) : tagsOf (x ++ s) = tagsOf s := by
  induction x with
  | nil => rfl
  | cons c x ih =>
    rw [mem_cons, not_or] at hx
    rw [cons_append, tagsOf_sign fun hc => absurd hc.symm hx.1, ih hx.2]

theorem tagsOf_plain (hx : '<' ∉ x) : tagsOf x = [] := by simpa [tagsOf] using tagsOf_append hx []

/-! Removing tags. -/

variable (tag : Chars)

def kept : Chars := if keepsTag tag then tag else []

theorem mapTags_unclosed (h : '>' ∉ s) : mapTags f s = s := by
  induction s with
  | nil => rw [mapTags]
  | cons c s ih =>
    rw [mem_cons, not_or] at h
    rw [mapTags_sign fun _ => tagAfter?_eq_none_iff.mpr (.inl h.2), ih h.2]

theorem tagAfter?_mapTags (h : tagAfter? rest = none) : tagAfter? (mapTags f rest) = none := by
  rcases tagAfter?_eq_none_iff.mp h with hmem | ⟨after, rfl⟩
  · rwa [mapTags_unclosed hmem]
  · rw [mapTags_sign fun h => absurd h (by decide)]
    exact tagAfter?_eq_none_iff.mpr (.inr ⟨_, rfl⟩)

theorem tagsOf_mapTags (s : Chars) : tagsOf (mapTags kept s) = (tagsOf s).filter keepsTag := by
  induction s using page_induction with
  | nil => simp [mapTags, tagsOf]
  | sign c rest h ih => rw [mapTags_sign h, tagsOf_sign fun hc => tagAfter?_mapTags (h hc), tagsOf_sign h, ih]
  | tag body after hne hbody ih =>
    rw [mapTags_tag hne hbody, tagsOf_tag hne hbody, filter_cons, kept]
    split_ifs
    · rw [tagsOf_tag hne hbody, ih]
    · exact ih

theorem mapTags_kept_sublist (s : Chars) : mapTags kept s <+ s := by
  induction s using page_induction with
  | nil => rw [mapTags]
  | sign c rest h ih =>
    rw [mapTags_sign h]
    exact ih.cons_cons c
  | tag body after hne hbody ih =>
    rw [mapTags_tag hne hbody, kept]
    split_ifs
    · exact ih.append_left _
    · exact ih.trans (sublist_append_right ..)

theorem mapTags_kept_eq_self_iff : mapTags kept s = s ↔ ∀ tag ∈ tagsOf s, keepsTag tag := by
  constructor
  · intro h
    rw [← filter_eq_self, ← tagsOf_mapTags, h]
  · intro h
    induction s using page_induction with
    | nil => rw [mapTags]
    | sign c rest hsign ih => rw [mapTags_sign hsign, ih (tagsOf_sign hsign ▸ h)]
    | tag body after hne hbody ih =>
      rw [tagsOf_tag hne hbody, forall_mem_cons] at h
      rw [mapTags_tag hne hbody, ih h.2, kept, if_pos h.1]

/-! Removing announcements. -/

theorem startsLike_mark {word : Chars} (h : ∀ w ∈ word, likeChar w c = false) (x rest : Chars) :
    startsLike word (x ++ c :: rest) = startsLike word x := by
  induction word generalizing x with
  | nil => rfl
  | cons w word ih =>
    simp only [forall_mem_cons] at h
    cases x with
    | nil => simp [startsLike, h.1]
    | cons d x => simp [startsLike, ih h.2]

theorem length_le_of_startsLike {word : Chars} (h : startsLike word s) : word.length ≤ s.length := by
  induction word generalizing s with
  | nil => simp
  | cons w word ih =>
    cases s with
    | nil => cases h
    | cons c s => simpa using ih (Bool.and_eq_true_iff.mp h).2

def IsMark (c : Char) : Prop := ∀ word ∈ announcements, ∀ w ∈ word.toList, likeChar w c = false

theorem isMark_brackets : IsMark '<' ∧ IsMark '>' := by
  have h : ∀ word ∈ announcements, (word.toList.all fun w => !likeChar w '<' && !likeChar w '>') := by
    decide
  simp only [List.all_eq_true, Bool.and_eq_true, Bool.not_eq_true'] at h
  exact ⟨fun word hword w hw => (h word hword w hw).1, fun word hword w hw => (h word hword w hw).2⟩

theorem announcementLength?_mark (h : IsMark c) (x rest : Chars) :
    announcementLength? (x ++ c :: rest) = announcementLength? x := by
  unfold announcementLength?
  rw [find?_congr fun word hword => startsLike_mark (h word hword) x rest]

variable {n : Nat}

theorem announcementLength?_le (h : announcementLength? s = some n) : n ≤ s.length := by
  obtain ⟨word, hfound, rfl⟩ := Option.map_eq_some_iff.mp h
  have hstarts := find?_some hfound
  simpa only [String.length_toList] using length_le_of_startsLike hstarts

theorem dropAnnouncements_mark (h : IsMark c) (hn : n ≤ x.length) (rest : Chars) :
    dropAnnouncements n (x ++ c :: rest) = dropAnnouncements n x ++ c :: dropAnnouncements 0 rest := by
  induction x generalizing n with
  | nil =>
    obtain rfl : n = 0 := by simpa using hn
    have hnone : announcementLength? (c :: rest) = none := announcementLength?_mark h [] rest
    simp [dropAnnouncements, hnone]
  | cons d x ih =>
    cases n with
    | succ n => exact ih (by simpa using hn)
    | zero =>
      have hsame := announcementLength?_mark h (d :: x) rest
      rw [cons_append] at hsame ⊢
      simp only [dropAnnouncements, hsame]
      cases hlength : announcementLength? (d :: x) with
      | none => simp [ih]
      | some m =>
        have hm := announcementLength?_le hlength
        exact ih (by simp only [length_cons] at hm; omega)

theorem dropAnnouncements_sublist (n : Nat) (s : Chars) : dropAnnouncements n s <+ s := by
  fun_induction dropAnnouncements n s with
  | case1 => exact nil_sublist _
  | case2 n c rest ih => exact ih.cons c
  | case3 c rest n _ ih => exact ih.cons c
  | case4 c rest _ ih => exact ih.cons_cons c

theorem notMem_dropAnnouncements (h : c ∉ s) : c ∉ dropAnnouncements 0 s :=
  fun hc => h ((dropAnnouncements_sublist 0 s).mem hc)

theorem tagAfter?_dropAnnouncements (h : tagAfter? rest = none) : tagAfter? (dropAnnouncements 0 rest) = none := by
  rw [tagAfter?_eq_none_iff] at h ⊢
  rcases h with hmem | ⟨after, rfl⟩
  · exact .inl (notMem_dropAnnouncements hmem)
  · exact .inr ⟨_, dropAnnouncements_mark (x := []) isMark_brackets.2 le_rfl after⟩

theorem dropAnnouncements_tag (x body after : Chars) : dropAnnouncements 0 (x ++ (tagOf body ++ after)) =
    dropAnnouncements 0 x ++ (tagOf (dropAnnouncements 0 body) ++ dropAnnouncements 0 after) := by
  have htag : tagOf body ++ after = '<' :: (body ++ '>' :: after) := by simp [tagOf]
  rw [htag, dropAnnouncements_mark isMark_brackets.1 (Nat.zero_le _),
    dropAnnouncements_mark isMark_brackets.2 (Nat.zero_le _)]
  simp [tagOf]

theorem dropAnnouncements_tagOf (body : Chars) :
    dropAnnouncements 0 (tagOf body) = tagOf (dropAnnouncements 0 body) := by
  simpa [dropAnnouncements] using dropAnnouncements_tag [] body []

theorem tagsOf_dropAnnouncements (s : Chars) :
    tagsOf (dropAnnouncements 0 s) = ((tagsOf s).map (dropAnnouncements 0)).filter (· ≠ tagOf []) := by
  -- An announcement may begin before a sign, so what was read since the last tag is carried along.
  suffices h : ∀ x, '<' ∉ x → tagsOf (dropAnnouncements 0 (x ++ s)) =
      ((tagsOf s).map (dropAnnouncements 0)).filter (· ≠ tagOf []) from h [] not_mem_nil
  induction s using page_induction with
  | nil =>
    intro x hx
    rw [append_nil, tagsOf_plain (notMem_dropAnnouncements hx), tagsOf]
    rfl
  | sign c rest h ih =>
    intro x hx
    rw [tagsOf_sign h]
    by_cases hc : c = '<'
    · subst hc
      rw [dropAnnouncements_mark isMark_brackets.1 (Nat.zero_le _), tagsOf_append (notMem_dropAnnouncements hx),
        tagsOf_sign fun hc => tagAfter?_dropAnnouncements (h hc)]
      exact ih [] not_mem_nil
    · rw [append_cons]
      exact ih (x ++ [c]) (by simp [hx, Ne.symm hc])
  | tag body after hne hbody ih =>
    intro x hx
    rw [dropAnnouncements_tag, tagsOf_append (notMem_dropAnnouncements hx), tagsOf_tag hne hbody, map_cons,
      dropAnnouncements_tagOf, filter_cons, ← ih [] not_mem_nil]
    by_cases hnil : dropAnnouncements 0 body = []
    · have hempty : tagOf [] ++ dropAnnouncements 0 after = '<' :: '>' :: dropAnnouncements 0 after := rfl
      rw [hnil, hempty, tagsOf_sign fun _ => tagAfter?_eq_none_iff.mpr (.inr ⟨_, rfl⟩)]
      simpa using tagsOf_append (x := ['>']) (by decide) (dropAnnouncements 0 after)
    · rw [tagsOf_tag hnil (notMem_dropAnnouncements hbody), if_pos (by simpa [tagOf] using hnil)]
      rfl

theorem mentionsAny_announcements_cons (c : Char) (rest : Chars) :
    mentionsAny announcements (c :: rest) =
      ((announcementLength? (c :: rest)).isSome || mentionsAny announcements rest) := by
  rw [Bool.eq_iff_iff]
  simp [mentionsAny, mentions, announcementLength?, and_or_left, exists_or]

theorem dropAnnouncements_eq_self_iff : dropAnnouncements 0 s = s ↔ mentionsAny announcements s = false := by
  induction s with
  | nil => simp [dropAnnouncements]; decide
  | cons c rest ih =>
    rw [mentionsAny_announcements_cons, dropAnnouncements]
    cases announcementLength? (c :: rest) with
    | none => simpa using ih
    | some n =>
      have hshort := (dropAnnouncements_sublist (n - 1) rest).length_le
      refine iff_of_false (fun h => ?_) (by simp)
      dsimp only at h
      rw [h, length_cons] at hshort
      omega

/-! The whole cleaning. -/

theorem cleanHtml_toList (s : String) : (cleanHtml s).toList = dropAnnouncements 0 (mapTags kept s.toList) :=
  String.toList_ofList

theorem tagsOf_cleanHtml (s : String) : tagsOf (cleanHtml s).toList =
    (((tagsOf s.toList).filter keepsTag).map (dropAnnouncements 0)).filter (· ≠ tagOf []) := by
  rw [cleanHtml_toList, tagsOf_dropAnnouncements, tagsOf_mapTags]

theorem cleanHtml_eq_self_iff (s : String) : cleanHtml s = s ↔
    (∀ tag ∈ tagsOf s.toList, keepsTag tag) ∧ mentionsAny announcements s.toList = false := by
  rw [← String.toList_inj, cleanHtml_toList, ← mapTags_kept_eq_self_iff, ← dropAnnouncements_eq_self_iff]
  constructor
  · intro h
    have hdrop := dropAnnouncements_sublist 0 (mapTags kept s.toList)
    rw [h] at hdrop
    have htags := (mapTags_kept_sublist s.toList).antisymm hdrop
    rw [htags] at h
    exact ⟨htags, h⟩
  · rintro ⟨htags, hdrop⟩
    rw [htags, hdrop]

theorem length_cleanHtml_lt {s : String} (h : cleanHtml s ≠ s) : (cleanHtml s).length < s.length := by
  have hsub : (cleanHtml s).toList <+ s.toList :=
    cleanHtml_toList s ▸ (dropAnnouncements_sublist 0 _).trans (mapTags_kept_sublist s.toList)
  refine lt_of_le_of_ne hsub.length_le fun hl => h ?_
  exact String.toList_inj.mp (hsub.eq_of_length hl)

theorem cleanHtml_iterate {s : String} (h : s.length ≤ n) : cleanHtml (cleanHtml^[n] s) = cleanHtml^[n] s := by
  induction n generalizing s with
  | zero =>
    by_contra hne
    have := length_cleanHtml_lt hne
    simp only [Function.iterate_zero, id_eq] at this
    omega
  | succ n ih =>
    by_cases hs : cleanHtml s = s
    · rw [Function.iterate_fixed hs, hs]
    · have := length_cleanHtml_lt hs
      exact ih (by omega)

def elementName : String :=
  let inner := tag.drop 1
  let inner := if inner.head? = some '/' then inner.drop 1 else inner
  lowerText (String.ofList (inner.takeWhile fun c => !isBlank c && c != '/' && c != '>'))

def isAllowed : Bool := allowedElements.contains (elementName tag)

/-- The tags left in a cleaned page are, in order, those of the page that mention an allowed element
anywhere, less the announcements in them, unless nothing else was in them. So only tags of allowed
elements are left if and only if every tag that mentions an allowed element is the tag of one. -/
theorem tags_left (s : String) : tagsOf (cleanHtml s).toList =
      (((tagsOf s.toList).filter keepsTag).map (dropAnnouncements 0)).filter (· ≠ tagOf []) ∧
    ((∀ tag ∈ tagsOf (cleanHtml s).toList, isAllowed tag = true) ↔
      ∀ tag ∈ tagsOf s.toList, keepsTag tag = true →
        isAllowed (dropAnnouncements 0 tag) = true ∨ dropAnnouncements 0 tag = tagOf []) := by
  refine ⟨tagsOf_cleanHtml s, ?_⟩
  simp only [tagsOf_cleanHtml, mem_filter, mem_map, decide_eq_true_eq]
  constructor
  · intro h tag htag hkeep
    by_cases hempty : dropAnnouncements 0 tag = tagOf []
    · exact .inr hempty
    · exact .inl (h _ ⟨⟨tag, ⟨htag, hkeep⟩, rfl⟩, hempty⟩)
  · rintro h _ ⟨⟨tag, ⟨htag, hkeep⟩, rfl⟩, hne⟩
    exact (h tag htag hkeep).resolve_right hne

/-- A tag that is not allowed is left if its name holds the name of an allowed one. -/
theorem script_tag_left : ∃ s tag, tag ∈ tagsOf (cleanHtml s).toList ∧ isAllowed tag = false := by
  refine ⟨"<script>", "<script>".toList, ?_, by decide⟩
  rw [tagsOf_cleanHtml, show "<script>".toList = tagOf "script".toList ++ [] from by decide,
    tagsOf_tag (by decide) (by decide)]
  decide

/-- A second cleaning changes nothing if and only if the first one left no announcement and only
tags that mention an allowed element. Cleaning a page as often as it has characters always comes to
that. -/
theorem cleaned_again_iff (s : String) : (cleanHtml (cleanHtml s) = cleanHtml s ↔
      (∀ tag ∈ tagsOf (cleanHtml s).toList, keepsTag tag = true) ∧
      mentionsAny announcements (cleanHtml s).toList = false) ∧
    ∀ n, s.length ≤ n → cleanHtml (cleanHtml^[n] s) = cleanHtml^[n] s ∧
      mentionsAny announcements (cleanHtml^[n] s).toList = false := by
  refine ⟨cleanHtml_eq_self_iff _, fun n hn => ?_⟩
  have hfixed := cleanHtml_iterate hn
  exact ⟨hfixed, ((cleanHtml_eq_self_iff _).mp hfixed).2⟩

/-- What remains around a removed announcement can form a new one. -/
theorem announcement_left : ∃ s, mentionsAny announcements (cleanHtml s).toList = true ∧
    cleanHtml (cleanHtml s) ≠ cleanHtml s := by
  have hleft : mentionsAny announcements (cleanHtml "javajavascript:script:").toList = true := by
    rw [cleanHtml_toList, mapTags_unclosed (by decide)]
    decide
  refine ⟨_, hleft, fun h => ?_⟩
  have hfree := ((cleanHtml_eq_self_iff _).mp h).2
  rw [hleft] at hfree
  cases hfree

end CodeAudit.Guard

import Mathlib.Data.List.Lex
import Mathlib.Data.List.Pairwise
import CodeAudit.Syntax.Tree

/-! Where the nodes of a tree stand, and when a walk comes to them. A position is the list of the
places among the children that lead to a node. In preorder the positions stand as words in a
dictionary. -/

namespace CodeAudit.Syntax.Node

open List

def at? : Node → List Nat → Option Node
  | n, [] => some n
  | n, i :: rest => n.children[i]?.bind fun child => child.at? rest

variable (n : Node)

theorem at?_append (p q : List Nat) : n.at? (p ++ q) = (n.at? p).bind fun m => m.at? q := by
  induction p generalizing n with
  | nil => rfl
  | cons i rest ih => simp only [cons_append, at?, ih, Option.bind_assoc]

theorem at?_snoc (p : List Nat) (i : Nat) : n.at? (p ++ [i]) = (n.at? p).bind fun m => m.children[i]? := by
  simp only [at?_append, at?, Option.bind_fun_some]

theorem height_le_heightOfFields {entry : Field × Node} {entries : List (Field × Node)} (h : entry ∈ entries) :
    entry.2.height ≤ heightOfFields entries := by
  induction entries with
  | nil => simp at h
  | cons first rest ih =>
    rcases mem_cons.mp h with rfl | hrest
    · exact le_max_left _ _
    · exact (ih hrest).trans (le_max_right _ _)

theorem height_lt_of_child {n child : Node} (h : child ∈ n.children) : child.height < n.height := by
  obtain ⟨kind, span, fields⟩ := n
  obtain ⟨entry, hentry, rfl⟩ := mem_map.mp h
  exact Nat.lt_succ_of_le (height_le_heightOfFields hentry)

variable {m : Node} {p : List Nat}

theorem length_lt_height {n : Node} (h : n.at? p = some m) : p.length < n.height := by
  induction p generalizing n with
  | nil =>
    obtain ⟨kind, span, fields⟩ := n
    exact Nat.succ_pos _
  | cons i rest ih =>
    obtain ⟨child, hchild, hrest⟩ := Option.bind_eq_some_iff.mp h
    have hlower := height_lt_of_child (mem_of_getElem? hchild)
    have hdeep := ih hrest
    rw [length_cons]
    omega

def Earlier (p q : List Nat) : Prop := p.length < q.length ∨ p.length = q.length ∧ p < q

def childrenAt (e : List Nat × Node) : List (List Nat × Node) :=
  e.2.children.mapIdx fun i child => (e.1 ++ [i], child)

def placedLevels : Nat → List (List Nat × Node) → List (List Nat × Node)
  | 0, _ => []
  | depth + 1, forest => forest ++ placedLevels depth (forest.flatMap childrenAt)

def placedWalk : List (List Nat × Node) := placedLevels n.height [([], n)]

theorem mem_childrenAt {e : List Nat × Node} :
    (p, m) ∈ childrenAt e ↔ ∃ i, e.2.children[i]? = some m ∧ p = e.1 ++ [i] := by
  simp only [childrenAt, mem_mapIdx, Prod.mk.injEq, getElem?_eq_some_iff]
  constructor
  · rintro ⟨i, hi, rfl, hm⟩
    exact ⟨i, ⟨hi, hm⟩, rfl⟩
  · rintro ⟨i, ⟨hi, hm⟩, rfl⟩
    exact ⟨i, hi, rfl, hm⟩

theorem map_childrenAt (e : List Nat × Node) : (childrenAt e).map Prod.snd = e.2.children := by
  apply ext_getElem?
  intro i
  simp only [childrenAt, getElem?_map, getElem?_mapIdx, Option.map_map]
  exact Option.map_id_apply

theorem map_placedLevels (depth : Nat) (forest : List (List Nat × Node)) :
    (placedLevels depth forest).map Prod.snd = levels depth (forest.map Prod.snd) := by
  induction depth generalizing forest with
  | zero => rfl
  | succ depth ih =>
    rw [placedLevels, levels, map_append, ih, map_flatMap, flatMap_map]
    simp only [map_childrenAt]

theorem map_placedWalk : n.placedWalk.map Prod.snd = n.walk := map_placedLevels n.height [([], n)]

theorem append_lt_append {q : List Nat} (hlength : p.length = q.length) (h : p < q) (r s : List Nat) :
    p ++ r < q ++ s := by
  induction p generalizing q with
  | nil =>
    obtain rfl := length_eq_zero_iff.mp hlength.symm
    exact absurd h (lt_irrefl _)
  | cons i p ih =>
    cases q with
    | nil => simp at hlength
    | cons j q =>
      rw [cons_append, cons_append, cons_lt_cons_iff]
      rcases cons_lt_cons_iff.mp h with hij | ⟨rfl, hrest⟩
      · exact .inl hij
      · exact .inr ⟨rfl, ih (Nat.succ.inj hlength) hrest⟩

structure IsLevel (root : Node) (depth : Nat) (level : List (List Nat × Node)) : Prop where
  mem_iff : ∀ p m, (p, m) ∈ level ↔ root.at? p = some m ∧ p.length = depth
  ordered : level.Pairwise fun a b => a.1 < b.1

variable (root : Node)

theorem isLevel_root : IsLevel root 0 [([], root)] := by
  refine ⟨?_, pairwise_singleton _ _⟩
  intro p m
  rw [mem_singleton, Prod.mk.injEq]
  constructor
  · rintro ⟨rfl, rfl⟩
    exact ⟨rfl, rfl⟩
  · rintro ⟨hat, hlength⟩
    obtain rfl := length_eq_zero_iff.mp hlength
    exact ⟨rfl, (Option.some.inj hat).symm⟩

variable {depth : Nat} {level : List (List Nat × Node)}

theorem IsLevel.next {root : Node} (h : IsLevel root depth level) :
    IsLevel root (depth + 1) (level.flatMap childrenAt) := by
  constructor
  · intro p m
    rw [mem_flatMap]
    constructor
    · rintro ⟨⟨q, parent⟩, hparent, hchild⟩
      obtain ⟨i, hi, rfl⟩ := mem_childrenAt.mp hchild
      obtain ⟨hat, hlength⟩ := (h.mem_iff q parent).mp hparent
      rw [at?_snoc, hat, length_append, hlength]
      exact ⟨hi, rfl⟩
    · rintro ⟨hat, hlength⟩
      have hne : p ≠ [] := by
        rintro rfl
        simp at hlength
      obtain ⟨q, i, rfl⟩ : ∃ q i, p = q ++ [i] := ⟨_, _, (dropLast_append_getLast hne).symm⟩
      rw [at?_snoc] at hat
      obtain ⟨parent, hparent, hi⟩ := Option.bind_eq_some_iff.mp hat
      have hshorter : q.length = depth := by simpa using hlength
      exact ⟨(q, parent), (h.mem_iff q parent).mpr ⟨hparent, hshorter⟩, mem_childrenAt.mpr ⟨i, hi, rfl⟩⟩
  · rw [pairwise_flatMap]
    constructor
    · rintro ⟨q, parent⟩ -
      rw [childrenAt, pairwise_iff_getElem]
      intro i j hi hj hij
      simp only [getElem_mapIdx]
      exact append_left_lt (cons_lt_cons_iff.mpr (.inl hij))
    · refine h.ordered.imp_of_mem ?_
      rintro ⟨p, m⟩ ⟨q, k⟩ hp hq hlt ⟨p', m'⟩ hp' ⟨q', k'⟩ hq'
      obtain ⟨i, -, rfl⟩ := mem_childrenAt.mp hp'
      obtain ⟨j, -, rfl⟩ := mem_childrenAt.mp hq'
      have hlength := ((h.mem_iff p m).mp hp).2.trans ((h.mem_iff q k).mp hq).2.symm
      exact append_lt_append hlength hlt [i] [j]

theorem mem_placedLevels {root : Node} (count : Nat) (h : IsLevel root depth level) (p : List Nat) (m : Node) :
    (p, m) ∈ placedLevels count level ↔ root.at? p = some m ∧ depth ≤ p.length ∧ p.length < depth + count := by
  induction count generalizing depth level with
  | zero =>
    simp only [placedLevels, not_mem_nil, false_iff]
    omega
  | succ count ih =>
    rw [placedLevels, mem_append, h.mem_iff, ih h.next]
    constructor
    · rintro (⟨hat, hlength⟩ | ⟨hat, hlow, hhigh⟩)
      · exact ⟨hat, by omega⟩
      · exact ⟨hat, by omega⟩
    · rintro ⟨hat, hlow, hhigh⟩
      rcases Nat.eq_or_lt_of_le hlow with heq | hlt
      · exact .inl ⟨hat, heq.symm⟩
      · exact .inr ⟨hat, hlt, by omega⟩

theorem placedLevels_ordered {root : Node} (count : Nat) (h : IsLevel root depth level) :
    (placedLevels count level).Pairwise fun a b => Earlier a.1 b.1 := by
  induction count generalizing depth level with
  | zero => exact List.Pairwise.nil
  | succ count ih =>
    rw [placedLevels, pairwise_append]
    refine ⟨?_, ih h.next, ?_⟩
    · refine h.ordered.imp_of_mem ?_
      rintro ⟨p, m⟩ ⟨q, k⟩ hp hq hlt
      exact .inr ⟨((h.mem_iff p m).mp hp).2.trans ((h.mem_iff q k).mp hq).2.symm, hlt⟩
    · rintro ⟨p, m⟩ hp ⟨q, k⟩ hq
      have hshort := ((h.mem_iff p m).mp hp).2
      have hlong := ((mem_placedLevels count h.next q k).mp hq).2.1
      exact .inl (by rw [hshort]; exact hlong)

theorem mem_placedWalk (p : List Nat) (m : Node) : (p, m) ∈ root.placedWalk ↔ root.at? p = some m := by
  rw [placedWalk, mem_placedLevels root.height (isLevel_root root)]
  constructor
  · exact fun h => h.1
  · intro hat
    exact ⟨hat, Nat.zero_le _, by simpa using length_lt_height hat⟩

theorem placedWalk_ordered : root.placedWalk.Pairwise fun a b => Earlier a.1 b.1 :=
  placedLevels_ordered root.height (isLevel_root root)

theorem mem_walk_iff {root : Node} : m ∈ root.walk ↔ ∃ p, root.at? p = some m := by
  rw [← map_placedWalk, mem_map]
  constructor
  · rintro ⟨⟨p, m⟩, hmem, rfl⟩
    exact ⟨p, (mem_placedWalk root p m).mp hmem⟩
  · rintro ⟨p, hat⟩
    exact ⟨(p, m), (mem_placedWalk root p m).mpr hat, rfl⟩

/-- What is told of the nodes of a tree is listed: once for each node of which something is told, in
the order in which a walk comes to the nodes. -/
def Lists {α : Type} (root : Node) (told : Node → Option α) (entries : List α) : Prop :=
  ∃ positions : List (List Nat), positions.Pairwise Earlier ∧
    (∀ p, p ∈ positions ↔ ∃ m, root.at? p = some m ∧ (told m).isSome = true) ∧
    positions.map (fun p => (root.at? p).bind told) = entries.map some

theorem lists_walk {α : Type} (told : Node → Option α) : root.Lists told (root.walk.filterMap told) := by
  have hmem : ∀ e ∈ root.placedWalk, root.at? e.1 = some e.2 := fun e he => (mem_placedWalk root e.1 e.2).mp he
  refine ⟨(root.placedWalk.filter fun e => (told e.2).isSome).map Prod.fst, ?_, ?_, ?_⟩
  · exact (root.placedWalk_ordered.filter _).map Prod.fst fun _ _ h => h
  · intro p
    simp only [mem_map, mem_filter]
    constructor
    · rintro ⟨⟨p, m⟩, ⟨he, htold⟩, rfl⟩
      exact ⟨m, hmem _ he, htold⟩
    · rintro ⟨m, hat, htold⟩
      exact ⟨(p, m), ⟨(mem_placedWalk root p m).mpr hat, htold⟩, rfl⟩
  · have htold : ∀ e ∈ root.placedWalk.filter fun e => (told e.2).isSome, (root.at? e.1).bind told = told e.2 := by
      intro e he
      rw [hmem e (mem_of_mem_filter he), Option.bind_some]
    rw [← map_placedWalk, filterMap_map, map_map, map_filterMap_some_eq_filter_map_isSome,
      filter_map]
    exact map_congr_left htold

mutual

def placedPreorder (p : List Nat) : Node → List (List Nat × Node)
  | .mk kind span children => (p, .mk kind span children) :: placedPreorderFields p 0 children

def placedPreorderFields (p : List Nat) (i : Nat) : List (Field × Node) → List (List Nat × Node)
  | [] => []
  | (_, child) :: rest => placedPreorder (p ++ [i]) child ++ placedPreorderFields p (i + 1) rest

end

mutual

theorem map_placedPreorder (p : List Nat) : ∀ n : Node, (placedPreorder p n).map Prod.snd = n.preorder
  | .mk kind span children => by rw [placedPreorder, preorder, map_cons, map_placedPreorderFields]

theorem map_placedPreorderFields (p : List Nat) (i : Nat) :
    ∀ children : List (Field × Node), (placedPreorderFields p i children).map Prod.snd = preorderFields children
  | [] => rfl
  | (field, child) :: rest => by
    rw [placedPreorderFields, preorderFields, map_append, map_placedPreorder, map_placedPreorderFields]

end

mutual

theorem mem_placedPreorder {p q : List Nat} {m : Node} :
    ∀ {n : Node}, (q, m) ∈ placedPreorder p n ↔ ∃ r, q = p ++ r ∧ n.at? r = some m
  | .mk kind span children => by
    rw [placedPreorder, mem_cons, mem_placedPreorderFields, Prod.mk.injEq]
    constructor
    · rintro (⟨rfl, rfl⟩ | ⟨j, r, child, hchild, rfl, hat⟩)
      · exact ⟨[], (append_nil q).symm, rfl⟩
      · refine ⟨j :: r, by rw [Nat.zero_add], ?_⟩
        rw [at?, show (mk kind span children).children[j]? = some child from hchild]
        exact hat
    · rintro ⟨r, rfl, hat⟩
      cases r with
      | nil => exact .inl ⟨append_nil p, (Option.some.inj hat).symm⟩
      | cons j r =>
        obtain ⟨child, hchild, hrest⟩ := Option.bind_eq_some_iff.mp hat
        exact .inr ⟨j, r, child, hchild, by rw [Nat.zero_add], hrest⟩

theorem mem_placedPreorderFields {p q : List Nat} {i : Nat} {m : Node} :
    ∀ {children : List (Field × Node)}, (q, m) ∈ placedPreorderFields p i children ↔
      ∃ j r child, (children.map Prod.snd)[j]? = some child ∧ q = p ++ (i + j) :: r ∧ child.at? r = some m
  | [] => by simp [placedPreorderFields]
  | (field, first) :: rest => by
    rw [placedPreorderFields, mem_append, mem_placedPreorder, mem_placedPreorderFields]
    constructor
    · rintro (⟨r, rfl, hat⟩ | ⟨j, r, child, hchild, rfl, hat⟩)
      · exact ⟨0, r, first, rfl, by simp, hat⟩
      · exact ⟨j + 1, r, child, hchild, by rw [Nat.add_assoc, Nat.add_comm 1 j], hat⟩
    · rintro ⟨j, r, child, hchild, rfl, hat⟩
      cases j with
      | zero =>
        obtain rfl := Option.some.inj hchild
        exact .inl ⟨r, by simp, hat⟩
      | succ j => exact .inr ⟨j, r, child, hchild, by rw [Nat.add_assoc, Nat.add_comm 1 j], hat⟩

end

mutual

theorem placedPreorder_ordered (p : List Nat) : ∀ n : Node, (placedPreorder p n).Pairwise fun a b => a.1 < b.1
  | .mk kind span children => by
    rw [placedPreorder, pairwise_cons]
    refine ⟨?_, placedPreorderFields_ordered p 0 children⟩
    rintro ⟨q, m⟩ hq
    obtain ⟨j, r, child, -, rfl, -⟩ := mem_placedPreorderFields.mp hq
    have hbelow : p ++ [] < p ++ (0 + j) :: r := append_left_lt (nil_lt_cons _ _)
    rwa [append_nil] at hbelow

theorem placedPreorderFields_ordered (p : List Nat) (i : Nat) :
    ∀ children : List (Field × Node), (placedPreorderFields p i children).Pairwise fun a b => a.1 < b.1
  | [] => List.Pairwise.nil
  | (field, child) :: rest => by
    rw [placedPreorderFields, pairwise_append]
    refine ⟨placedPreorder_ordered (p ++ [i]) child, placedPreorderFields_ordered p (i + 1) rest, ?_⟩
    rintro ⟨q, m⟩ hq ⟨q', m'⟩ hq'
    obtain ⟨r, rfl, -⟩ := mem_placedPreorder.mp hq
    obtain ⟨j, r', child', -, rfl, -⟩ := mem_placedPreorderFields.mp hq'
    -- the two positions part at the child: `i` against a later place
    rw [append_assoc, singleton_append]
    exact append_left_lt (cons_lt_cons_iff.mpr (.inl (by omega)))

end

theorem mem_preorder_iff {root : Node} : m ∈ root.preorder ↔ ∃ p, root.at? p = some m := by
  rw [← map_placedPreorder [] root, mem_map]
  constructor
  · rintro ⟨⟨p, m⟩, hmem, rfl⟩
    obtain ⟨r, -, hat⟩ := mem_placedPreorder.mp hmem
    exact ⟨r, hat⟩
  · rintro ⟨p, hat⟩
    exact ⟨(p, m), mem_placedPreorder.mpr ⟨p, rfl, hat⟩, rfl⟩

def InPreorder (root : Node) (positions : List (List Nat)) : Prop :=
  positions.Pairwise (· < ·) ∧ ∀ p, p ∈ positions ↔ (root.at? p).isSome = true

theorem exists_inPreorder :
    ∃ positions, root.InPreorder positions ∧ positions.map root.at? = root.preorder.map some := by
  have hmem : ∀ e ∈ placedPreorder [] root, root.at? e.1 = some e.2 := by
    rintro ⟨p, m⟩ he
    obtain ⟨r, rfl, hat⟩ := mem_placedPreorder.mp he
    exact hat
  refine ⟨(placedPreorder [] root).map Prod.fst, ⟨?_, ?_⟩, ?_⟩
  · exact (placedPreorder_ordered [] root).map Prod.fst fun _ _ h => h
  · intro p
    rw [mem_map]
    constructor
    · rintro ⟨e, he, rfl⟩
      rw [hmem e he]
      rfl
    · intro hsome
      obtain ⟨m, hat⟩ := Option.isSome_iff_exists.mp hsome
      exact ⟨(p, m), mem_placedPreorder.mpr ⟨p, rfl, hat⟩, rfl⟩
  · rw [← map_placedPreorder [] root, map_map, map_map]
    exact map_congr_left hmem

theorem preorder_perm_walk : root.preorder.Perm root.walk := by
  have hpre : (placedPreorder [] root).Nodup := (placedPreorder_ordered [] root).imp fun h heq => by
    rw [heq] at h
    exact lt_irrefl _ h
  have hwalk : root.placedWalk.Nodup := root.placedWalk_ordered.imp fun h heq => by
    rw [heq] at h
    rcases h with h | ⟨-, h⟩
    · exact lt_irrefl _ h
    · exact lt_irrefl _ h
  have hplaced : (placedPreorder [] root).Perm root.placedWalk := by
    rw [perm_ext_iff_of_nodup hpre hwalk]
    rintro ⟨p, m⟩
    rw [mem_placedPreorder, mem_placedWalk]
    simp
  rw [← map_placedPreorder [] root, ← map_placedWalk]
  exact hplaced.map Prod.snd

end CodeAudit.Syntax.Node

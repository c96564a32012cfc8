import Mathlib.Data.List.Induction
import Mathlib.Tactic.Ring
import CodeAudit.Proofs.ModuleDefinitions
import CodeAudit.Proofs.TreeGrammar

/-! Which methods the metrics list under a class. A class is entered after its methods were
attached by name, so it never lists its own methods, and the first of its name lists those of
the later ones. -/

namespace CodeAudit.Metrics

open List Syntax Nat Inventory

def classDef? (n : Node) : Option (String × Node) :=
  match n.kind with
  | .classDef name => some (name, n)
  | _ => none

def enterClass (classes : List ClassMetrics) (d : String × Node) : List ClassMetrics :=
  attachMethods d.1 (directMethods d.2) classes ++ [measureClass d.1 d.2]

variable (defs : List (String × Node))

/-- The methods that the class at a place among the definitions lists: those of the later classes of
its name, unless an earlier class has the name too. -/
def attachedMethods (i : Nat) (name : String) : List FunctionMetrics :=
  if ∃ d ∈ defs.take i, d.1 = name then []
  else ((defs.drop (i + 1)).filter fun d => d.1 = name).flatMap fun d => directMethods d.2

def classEntry (d : String × Node) (methods : List FunctionMetrics) : ClassMetrics :=
  { measureClass d.1 d.2 with methods }

def classEntries : List ClassMetrics :=
  defs.mapIdx fun i d => classEntry d (attachedMethods defs i d.1)

theorem classes_registerAll (nodes : List Node) (inv : Inventory) :
    (nodes.foldl register inv).classes = (nodes.filterMap classDef?).foldl enterClass inv.classes := by
  induction nodes generalizing inv with
  | nil => rfl
  | cons n rest ih =>
    have hstep : (inv.register n).classes = (classDef? n).toList.foldl enterClass inv.classes := by
      unfold register classDef?
      cases n.kind <;> rfl
    rw [foldl_cons, ih, hstep, filterMap_cons]
    cases classDef? n <;> rfl

theorem getElem?_attachMethods (name : String) (methods : List FunctionMetrics) (classes : List ClassMetrics)
    (i : Nat) : (attachMethods name methods classes)[i]? = classes[i]?.map fun c =>
      if c.name = name ∧ ¬ ∃ e ∈ classes.take i, e.name = name then { c with methods := c.methods ++ methods }
      else c := by
  induction classes generalizing i with
  | nil => rfl
  | cons first rest ih =>
    rw [attachMethods]
    by_cases hfirst : first.name = name
    · rw [if_pos hfirst]
      cases i with
      | zero => simp [hfirst]
      | succ i => simp [hfirst]
    · rw [if_neg hfirst]
      cases i with
      | zero => simp [hfirst]
      | succ i =>
        rw [getElem?_cons_succ, ih]
        simp [hfirst]

variable (defs : List (String × Node))

theorem getElem?_classEntries (i : Nat) :
    (classEntries defs)[i]? = defs[i]?.map fun d => classEntry d (attachedMethods defs i d.1) := getElem?_mapIdx

theorem methods_classEntries :
    (classEntries defs).map ClassMetrics.methods = defs.mapIdx fun i d => attachedMethods defs i d.1 := by
  apply ext_getElem?
  intro i
  rw [getElem?_map, getElem?_classEntries, getElem?_mapIdx, Option.map_map]
  rfl

theorem name_take_classEntries (i : Nat) (name : String) :
    (∃ e ∈ (classEntries defs).take i, e.name = name) ↔ ∃ d ∈ defs.take i, d.1 = name := by
  have hnames : (classEntries defs).map ClassMetrics.name = defs.map Prod.fst := by
    apply ext_getElem?
    intro j
    rw [getElem?_map, getElem?_classEntries, getElem?_map, Option.map_map]
    rfl
  have htake : ((classEntries defs).take i).map ClassMetrics.name = (defs.take i).map Prod.fst := by
    rw [map_take, hnames, map_take]
  rw [← mem_map, htake, mem_map]

variable (d : String × Node)

theorem attachedMethods_snoc {i : Nat} (hi : i < defs.length) (name : String) :
    attachedMethods (defs ++ [d]) i name = attachedMethods defs i name ++
      if name = d.1 ∧ ¬ ∃ e ∈ defs.take i, e.1 = d.1 then directMethods d.2 else [] := by
  have htake : (defs ++ [d]).take i = defs.take i := take_append_of_le_length hi.le
  have hdrop : (defs ++ [d]).drop (i + 1) = defs.drop (i + 1) ++ [d] := drop_append_of_le_length hi
  unfold attachedMethods
  rw [htake, hdrop]
  by_cases hname : name = d.1
  · subst hname
    by_cases hearlier : ∃ e ∈ defs.take i, e.1 = d.1
    · rw [if_pos hearlier, if_pos hearlier, if_neg (fun h => h.2 hearlier), append_nil]
    · rw [if_neg hearlier, if_neg hearlier, if_pos ⟨rfl, hearlier⟩, filter_append]
      simp
  · have hother : [d].filter (fun e => e.1 = name) = [] := by simp [Ne.symm hname]
    have hgiven : ¬ (name = d.1 ∧ ¬ ∃ e ∈ defs.take i, e.1 = d.1) := fun h => hname h.1
    rw [if_neg hgiven, filter_append, hother, append_nil, append_nil]

theorem attachedMethods_last (name : String) : attachedMethods (defs ++ [d]) defs.length name = [] := by
  have hdrop : (defs ++ [d]).drop (defs.length + 1) = [] := by simp
  unfold attachedMethods
  rw [hdrop]
  split_ifs <;> rfl

theorem enterClass_classEntries : enterClass (classEntries defs) d = classEntries (defs ++ [d]) := by
  have hattached : (attachMethods d.1 (directMethods d.2) (classEntries defs)).length = defs.length := by
    have hheads := congrArg length (heads_attachMethods d.1 (directMethods d.2) (classEntries defs))
    rw [length_map, length_map] at hheads
    exact hheads.trans length_mapIdx
  apply ext_getElem?
  intro i
  rw [getElem?_classEntries, enterClass]
  rcases lt_trichotomy i defs.length with hi | rfl | hi
  · rw [getElem?_append_left (by omega), getElem?_attachMethods, getElem?_classEntries,
      getElem?_append_left hi, getElem?_eq_getElem hi]
    simp only [Option.map_some, name_take_classEntries, attachedMethods_snoc defs d hi]
    have hname (methods : List FunctionMetrics) : (classEntry defs[i] methods).name = defs[i].1 := rfl
    rw [hname]
    split_ifs with htakes
    · rfl
    · rw [append_nil]
  · rw [getElem?_append_right (by omega), hattached, getElem?_append_right (Nat.le_refl _), Nat.sub_self]
    simp only [attachedMethods_last]
    rfl
  · rw [getElem?_eq_none (by simp; omega), getElem?_eq_none (by simp; omega)]
    rfl

theorem foldl_enterClass : defs.foldl enterClass [] = classEntries defs := by
  induction defs using reverseRecOn with
  | nil => rfl
  | append_singleton defs d ih => rw [foldl_append, ih, foldl_cons, foldl_nil, enterClass_classEntries]

theorem classes_inventory (p : Program) :
    (inventory p.tree).classes = classEntries (p.tree.walk.filterMap classDef?) := by
  rw [inventory_eq, classes_registerAll]
  exact foldl_enterClass _

theorem attachedMethods_of_earlier {defs : List (String × Node)} {i j : Nat} {d e : String × Node}
    (hd : defs[i]? = some d) (hij : i < j) (hname : d.1 = e.1) : attachedMethods defs j e.1 = [] := by
  refine if_pos ⟨d, ?_, hname⟩
  rw [mem_take_iff_getElem]
  obtain ⟨hi, rfl⟩ := List.getElem?_eq_some_iff.mp hd
  exact ⟨i, by omega, rfl⟩

theorem own_methods_iff :
    (∀ (i : Nat) (d : String × Node), defs[i]? = some d → attachedMethods defs i d.1 = directMethods d.2) ↔
      ∀ d ∈ defs, directMethods d.2 = [] := by
  constructor
  · intro hown d hd
    obtain ⟨i, hi⟩ := mem_iff_getElem?.mp hd
    rw [← hown i d hi]
    unfold attachedMethods
    split_ifs with hearlier
    · rfl
    · rw [flatMap_eq_nil_iff]
      intro e he
      obtain ⟨hlater, hname⟩ := mem_filter.mp he
      obtain ⟨k, hk⟩ := mem_iff_getElem?.mp hlater
      rw [getElem?_drop] at hk
      -- The class `e` comes after `d` and has its name.
      rw [← hown _ e hk]
      exact attachedMethods_of_earlier hi (by omega) (of_decide_eq_true hname).symm
  · intro hnone i d hi
    rw [hnone d (mem_of_getElem? hi)]
    unfold attachedMethods
    split_ifs with hearlier
    · rfl
    · rw [flatMap_eq_nil_iff]
      intro e he
      exact hnone e (mem_of_mem_drop (mem_of_mem_filter he))

/-- A program for which the interpreter has room has metrics. Their classes are its class
definitions in the order of a walk; the first of a name lists the methods of the later ones, and
every other class lists none. Every class lists the methods of its own body if and only if no class
has any. -/
theorem methods_listed_by_namesake {i : Interpreter} {source : String} {p : Program}
    (hparse : i.parse? source = some p) (hfits : Fits i source p) :
    ∃ (m : ModuleMetrics) (functions : List FunctionMetrics) (defs : List (String × Node)),
      measure i source = .ok m ∧ p.tree.Lists functionDef? functions ∧ p.tree.Lists classDef? defs ∧
      m.inventory.classes = defs.mapIdx (fun i d => classEntry d (attachedMethods defs i d.1)) ∧
      (∀ measure threshold, m.above measure threshold =
        (functions ++ (defs.mapIdx fun i d => attachedMethods defs i d.1).flatten).filter
          fun f => Num.lt threshold (.int (measure f))) ∧
      ((∀ (i : Nat) (d : String × Node), defs[i]? = some d →
          m.inventory.classes[i]?.map ClassMetrics.methods = some (directMethods d.2)) ↔
        ∀ d ∈ defs, directMethods d.2 = []) := by
  have hclasses := classes_inventory p
  refine ⟨measureTree source p.tree, p.tree.walk.filterMap functionDef?, p.tree.walk.filterMap classDef?,
    measure_of_fits hparse hfits, p.tree.lists_walk functionDef?, p.tree.lists_walk classDef?, hclasses, ?_, ?_⟩
  · intro measure threshold
    rw [ModuleMetrics.above, ModuleMetrics.allFunctions, measureTree, functions_inventory, hclasses,
      List.flatMap_def, methods_classEntries]
  · rw [← own_methods_iff]
    refine forall_congr' fun i => forall_congr' fun d => forall_congr' fun hi => ?_
    rw [measureTree, hclasses, getElem?_classEntries, hi, Option.map_some, Option.map_some, Option.some.injEq]
    rfl

def namesakes : String := "class A:\n def f(s): 0\nclass A:\n def g(s): 0\n"

theorem methods_namesakes :
    (measure .standard namesakes).toOption.map (fun m => m.inventory.classes.map fun c => c.methods.map (·.name)) =
      some [["g"], []] ∧
    (Interpreter.standard.parse? namesakes).map (fun p =>
      (p.tree.walk.filterMap classDef?).map fun d => (directMethods d.2).map (·.name)) =
      some [["f"], ["g"]] := by
  decide +kernel

theorem methods_listed_by_namesake_twice :
    ∃ p m defs, Interpreter.standard.parse? namesakes = some p ∧ Fits .standard namesakes p ∧
      measure .standard namesakes = .ok m ∧ p.tree.Lists classDef? defs ∧
        m.inventory.classes = classEntries defs ∧
      (m.inventory.classes.map fun c => c.methods.map (·.name)) = [["g"], []] := by
  obtain ⟨m, hm, hlisted⟩ := Option.map_eq_some_iff.mp methods_namesakes.1
  have hmeasure := eq_ok_of_toOption hm
  obtain ⟨p, hparse, hfits⟩ := exists_program_of_measure hmeasure
  obtain ⟨m', functions, defs, hmeasure', -, hdefs, hclasses, -⟩ := methods_listed_by_namesake hparse hfits
  obtain rfl : m = m' := Except.ok.inj (hmeasure.symm.trans hmeasure')
  exact ⟨p, m, defs, hparse, hfits, hmeasure, hdefs, hclasses, hlisted⟩

/-- Of two classes with one name the first gets the methods of the second. -/
theorem listed_under_another_class :
    ∃ i p m defs, Interpreter.parse? i namesakes = some p ∧ measure i namesakes = .ok m ∧
      p.tree.Lists classDef? defs ∧
      (defs.map fun d => (directMethods d.2).map (·.name)) = [["f"], ["g"]] ∧
      (m.inventory.classes.map fun c => c.methods.map (·.name)) = [["g"], []] ∧
      ¬ ∀ (i : Nat) (d : String × Node), defs[i]? = some d →
        m.inventory.classes[i]?.map ClassMetrics.methods = some (directMethods d.2) := by
  obtain ⟨m, hm, hlisted⟩ := Option.map_eq_some_iff.mp methods_namesakes.1
  obtain ⟨p, hparse, hbodies⟩ := Option.map_eq_some_iff.mp methods_namesakes.2
  refine ⟨_, p, m, _, hparse, eq_ok_of_toOption hm, p.tree.lists_walk classDef?, hbodies, hlisted, ?_⟩
  intro hown
  obtain ⟨d, _, hdefs, hbody, -⟩ := List.map_eq_cons_iff.mp hbodies
  obtain ⟨c, _, hclasses, hmethods, -⟩ := List.map_eq_cons_iff.mp hlisted
  have hfirst := hown 0 d (by rw [hdefs, List.getElem?_cons_zero])
  rw [hclasses, List.getElem?_cons_zero, Option.map_some, Option.some.injEq] at hfirst
  rw [hfirst, hbody] at hmethods
  exact absurd hmethods (by decide)

/-! Three walks tell how the branches of a function nest: one counts them, one finds how deep they
stand in each other, and one weighs each by the branches around it. The three figures bound each
other. -/

def isNest (n : Node) : Bool := nests n.kind

/-- How `count` branches can nest: `depth` deep, with the weights of all of them in sum. -/
structure Nesting (count depth weight : Nat) : Prop where
  depth_le : depth ≤ count
  count_le : count ≤ weight
  weight_le : weight ≤ count * depth
  depths_le : depth * (depth + 1) ≤ 2 * weight

namespace Nesting

variable {count depth weight count' depth' weight' : Nat}

theorem none : Nesting 0 0 0 := ⟨le_rfl, le_rfl, le_rfl, le_rfl⟩

theorem beside (h : Nesting count depth weight) (h' : Nesting count' depth' weight') :
    Nesting (count + count') (max depth depth') (weight + weight') := by
  obtain ⟨hdepth, hcount, hweight, hdepths⟩ := h
  obtain ⟨hdepth', hcount', hweight', hdepths'⟩ := h'
  refine ⟨by omega, by omega, ?_, ?_⟩
  · calc weight + weight' ≤ count * depth + count' * depth' := Nat.add_le_add hweight hweight'
      _ ≤ count * max depth depth' + count' * max depth depth' :=
        Nat.add_le_add (Nat.mul_le_mul_left _ (le_max_left ..)) (Nat.mul_le_mul_left _ (le_max_right ..))
      _ = (count + count') * max depth depth' := (add_mul ..).symm
  · rcases le_total depth depth' with h | h
    · rw [max_eq_right h]
      omega
    · rw [max_eq_left h]
      omega

theorem around (h : Nesting count depth weight) : Nesting (count + 1) (depth + 1) (1 + weight + count) := by
  obtain ⟨hdepth, hcount, hweight, hdepths⟩ := h
  refine ⟨by omega, by omega, ?_, ?_⟩
  · calc 1 + weight + count ≤ 1 + count * depth + count + depth := by omega
      _ = (count + 1) * (depth + 1) := by ring
  · calc (depth + 1) * (depth + 1 + 1) = depth * (depth + 1) + 2 * (depth + 1) := by ring
      _ ≤ 2 * (1 + weight + count) := by omega

end Nesting

mutual

theorem cognitiveAt_eq (level : Nat) : ∀ n : Node,
    cognitiveAt level n = cognitiveAt 0 n + level * n.preorder.countP isNest
  | .mk kind span children => by
    have hfields := fun level => cognitiveOfFields_eq level children
    rw [Node.preorder, countP_cons, cognitiveAt, cognitiveAt, isNest, Node.kind]
    by_cases hkind : nests kind
    · rw [if_pos hkind, if_pos hkind, if_pos hkind, hfields (level + 1), hfields (0 + 1)]
      ring
    · rw [if_neg hkind, if_neg hkind, if_neg hkind]
      exact hfields level

theorem cognitiveOfFields_eq (level : Nat) : ∀ children : List (Field × Node), cognitiveOfFields level children =
    cognitiveOfFields 0 children + level * (Node.preorderFields children).countP isNest
  | [] => rfl
  | (_, child) :: rest => by
    rw [cognitiveOfFields, cognitiveOfFields, Node.preorderFields, countP_append, cognitiveAt_eq level child,
      cognitiveOfFields_eq level rest]
    ring

end

mutual

theorem nesting_node : ∀ n : Node, Nesting (n.preorder.countP isNest) (nestedDepth n) (cognitiveAt 0 n)
  | .mk kind span children => by
    have hfields := nesting_fields children
    rw [Node.preorder, countP_cons, nestedDepth, cognitiveAt, isNest, Node.kind]
    by_cases hkind : nests kind
    · rw [if_pos hkind, if_pos hkind, if_pos hkind, cognitiveOfFields_eq, zero_add, one_mul, ← add_assoc]
      exact hfields.around
    · rw [if_neg hkind, if_neg hkind, if_neg hkind]
      exact hfields

theorem nesting_fields : ∀ children : List (Field × Node), Nesting ((Node.preorderFields children).countP isNest)
    (nestedDepthOfFields children) (cognitiveOfFields 0 children)
  | [] => .none
  | (_, child) :: rest => by
    rw [Node.preorderFields, countP_append, nestedDepthOfFields, cognitiveOfFields]
    exact (nesting_node child).beside (nesting_fields rest)

end

theorem countP_isNest_lt_complexity (n : Node) : n.walk.countP isNest + 1 ≤ complexity n := by
  have hnode (m : Node) : (if isNest m then 1 else 0) ≤ branchWeight m := by
    unfold isNest nests branchWeight
    cases m.kind <;> simp
  have hnodes (nodes : List Node) : nodes.countP isNest ≤ sumOf (nodes.map branchWeight) := by
    induction nodes with
    | nil => exact le_rfl
    | cons m rest ih =>
      rw [countP_cons, map_cons, sumOf]
      have hfirst := hnode m
      omega
  have hall := hnodes n.walk
  rw [complexity]
  omega

variable {source : String} {p : Program}

theorem exists_function_of_mem {f : FunctionMetrics} (h : f ∈ (measureTree source p.tree).allFunctions) :
    ∃ path n, p.tree.at? path = some n ∧ functionDef? n = some f := by
  rcases mem_append.mp h with h | h
  · obtain ⟨n, hn, hf⟩ := mem_filterMap.mp (functions_inventory p ▸ h)
    obtain ⟨path, hat⟩ := Node.mem_walk_iff.mp hn
    exact ⟨path, n, hat, hf⟩
  · change f ∈ (inventory p.tree).classes.flatMap (·.methods) at h
    rw [classes_inventory, flatMap_def, methods_classEntries] at h
    obtain ⟨methods, hmethods, hf⟩ := mem_flatten.mp h
    obtain ⟨i, hi, rfl⟩ := mem_mapIdx.mp hmethods
    -- what a class lists stands in the body of some class
    unfold attachedMethods at hf
    split_ifs at hf
    · cases hf
    obtain ⟨d, hd, hf⟩ := mem_flatMap.mp hf
    obtain ⟨n, hn, hclass⟩ := mem_filterMap.mp (mem_of_mem_drop (mem_of_mem_filter hd))
    have hnode : d.2 = n := by
      unfold classDef? at hclass
      split at hclass <;> cases hclass
      rfl
    obtain ⟨child, hchild, hmethod⟩ := mem_filterMap.mp hf
    rw [hnode] at hchild
    obtain ⟨path, hat⟩ := Node.mem_walk_iff.mp hn
    have hbelow : child ∈ n.children := mem_map_of_mem (Node.mem_childrenIn.mp hchild)
    obtain ⟨j, hj⟩ := mem_iff_getElem?.mp hbelow
    exact ⟨path ++ [j], child, by rw [Node.at?_snoc, hat]; exact hj, hmethod⟩

/-- In every function of a program the depth of its nesting bounds the number of nesting statements
from below, and that number the complexity; the cognitive complexity lies between sums made of
these. -/
theorem nesting_bounds {i : Interpreter} {source : String} {p : Program}
    (hparse : i.parse? source = some p) :
    (Fits i source p → ∃ m, measure i source = .ok m ∧
      p.tree.Lists functionDef? m.inventory.functions ∧
      ∀ f ∈ m.allFunctions, ∃ path n, p.tree.at? path = some n ∧ functionDef? n = some f) ∧
    (¬ Fits i source p → ∃ f, measure i source = .error f ∧
      (i.refusal source p = some f ∨ ∃ text, f = .tooDeep text)) ∧
    ∀ path n f, p.tree.at? path = some n → functionDef? n = some f →
      f.nestedDepth ≤ n.walk.countP isNest ∧ n.walk.countP isNest ≤ f.complexity - 1 ∧
      n.walk.countP isNest ≤ f.cognitiveComplexity ∧
      f.cognitiveComplexity ≤ n.walk.countP isNest * f.nestedDepth ∧
      f.nestedDepth * (f.nestedDepth + 1) / 2 ≤ f.cognitiveComplexity := by
  refine ⟨fun hfits => ?_, measure_of_not_fits hparse, fun path n f hat hf => ?_⟩
  · refine ⟨_, measure_of_fits hparse hfits, ?_, fun f => exists_function_of_mem⟩
    rw [measureTree, functions_inventory]
    exact p.tree.lists_walk functionDef?
  · obtain ⟨name, rfl⟩ : ∃ name, f = measureFunction name n := by
      unfold functionDef? at hf
      split at hf <;> cases hf
      exact ⟨_, rfl⟩
    have hnesting := nesting_node n
    rw [n.preorder_perm_walk.countP_eq] at hnesting
    obtain ⟨hdepth, hcount, hweight, hdepths⟩ := hnesting
    exact ⟨hdepth, Nat.le_sub_of_add_le (countP_isNest_lt_complexity n), hcount, hweight,
      Nat.div_le_of_le_mul hdepths⟩

def nested : Chars :=
  ["def f(a):", " if a:", "  for b in a: pass", " while a: pass"].flatMap fun line => line.toList ++ ['\n']

theorem figures_nested : (parseChars? nested).map (fun p => (p.tree.at? [0]).bind fun n => (functionDef? n).map
      fun f => (n.walk.countP isNest, f.nestedDepth, f.cognitiveComplexity)) = some (some (3, 2, 4)) := by
  decide +kernel

theorem nesting_bounds_nested :
    ∃ p n f, Interpreter.standard.parse? (String.ofList nested) = some p ∧
    p.tree.at? [0] = some n ∧ functionDef? n = some f ∧
    n.walk.countP isNest = 3 ∧ f.nestedDepth = 2 ∧ f.cognitiveComplexity = 4 ∧
    f.cognitiveComplexity ≤ n.walk.countP isNest * f.nestedDepth := by
  obtain ⟨p, hchars, hfigures⟩ := Option.map_eq_some_iff.mp figures_nested
  obtain ⟨n, hat, hsome⟩ := Option.bind_eq_some_iff.mp hfigures
  obtain ⟨f, hf, hvalues⟩ := Option.map_eq_some_iff.mp hsome
  simp only [Prod.mk.injEq] at hvalues
  have hparse := (parse?_standard _).trans hchars
  have hbounds := (nesting_bounds hparse).2.2 [0] n f hat hf
  exact ⟨p, n, f, hparse, hat, hf, hvalues.1, hvalues.2.1, hvalues.2.2, hbounds.2.2.2.1⟩

end CodeAudit.Metrics

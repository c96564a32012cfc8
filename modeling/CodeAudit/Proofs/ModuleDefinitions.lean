import CodeAudit.Metrics
import CodeAudit.Proofs.TreeGrammar

/-! The metrics of a module list every function and every class of the tree once, wherever they
stand in each other. -/

namespace CodeAudit.Metrics

open List Syntax

def functionHead? (n : Node) : Option (String × Nat) :=
  match n.kind with
  | .functionDef name => some (name, n.line)
  | _ => none

def classHead? (n : Node) : Option (String × Nat) :=
  match n.kind with
  | .classDef name => some (name, n.line)
  | _ => none

def FunctionMetrics.head (f : FunctionMetrics) : String × Nat := (f.name, f.startLine)

def ClassMetrics.head (c : ClassMetrics) : String × Nat := (c.name, c.startLine)

theorem heads_attachMethods (name : String) (methods : List FunctionMetrics) (classes : List ClassMetrics) :
    (attachMethods name methods classes).map ClassMetrics.head = classes.map ClassMetrics.head := by
  induction classes with
  | nil => rfl
  | cons c rest ih =>
    rw [attachMethods]
    split_ifs with hname
    · rfl
    · rw [map_cons, ih, map_cons]

/-! The current class. It is set while the body of a class is looked through and at no other time,
so a walk finds no class current at any node. -/

def functionDef? (n : Node) : Option FunctionMetrics :=
  match n.kind with
  | .functionDef name => some (measureFunction name n)
  | _ => none

def directMethods (n : Node) : List FunctionMetrics := (n.childrenIn .body).filterMap functionDef?

theorem attachMethods_nil (name : String) (classes : List ClassMetrics) :
    attachMethods name [] classes = classes := by
  induction classes with
  | nil => rfl
  | cons c rest ih => simp [attachMethods, ih]

theorem attachMethods_attachMethods (name : String) (first second : List FunctionMetrics)
    (classes : List ClassMetrics) :
    attachMethods name second (attachMethods name first classes) = attachMethods name (first ++ second) classes := by
  induction classes with
  | nil => rfl
  | cons c rest ih => by_cases hname : c.name = name <;> simp [attachMethods, hname, ih]

namespace Inventory

variable {inv : Inventory} {n : Node} {name : String} {nodes : List Node}

theorem addFunction_of_none (hnone : inv.current = none) :
    inv.addFunction n = { inv with functions := inv.functions ++ (functionDef? n).toList } := by
  obtain ⟨current, functions, classes, imports⟩ := inv
  obtain rfl : current = none := hnone
  unfold addFunction functionDef?
  cases n.kind <;> simp

theorem addFunction_of_some (hsome : inv.current = some name) (hname : name ≠ "") :
    inv.addFunction n = { inv with classes := attachMethods name (functionDef? n).toList inv.classes } := by
  obtain ⟨current, functions, classes, imports⟩ := inv
  obtain rfl : current = some name := hsome
  have howner : (some name).filter (· != "") = some name := by simp [Option.filter, hname]
  unfold addFunction functionDef?
  cases n.kind <;> simp [howner, attachMethods_nil]

theorem foldl_addFunction (hsome : inv.current = some name) (hname : name ≠ "") : nodes.foldl addFunction inv =
    { inv with classes := attachMethods name (nodes.filterMap functionDef?) inv.classes } := by
  induction nodes generalizing inv with
  | nil => simp [attachMethods_nil]
  | cons n rest ih =>
    have hnext : (inv.addFunction n).current = some name := by rw [addFunction_of_some hsome hname, hsome]
    rw [foldl_cons, ih hnext, addFunction_of_some hsome hname, attachMethods_attachMethods]
    cases hdef : functionDef? n <;> simp [hdef]

/-- What a node of a program adds to an inventory in which no class is current. -/
def register (inv : Inventory) (n : Node) : Inventory :=
  match n.kind with
  | .functionDef name => { inv with functions := inv.functions ++ [measureFunction name n] }
  | .classDef name =>
    { inv with classes := attachMethods name (directMethods n) inv.classes ++ [measureClass name n] }
  | .importStmt => { inv with imports := inv.imports ++ importEntries none n }
  | .importFrom source _ => { inv with imports := inv.imports ++ importEntries (some (source.getD "")) n }
  | _ => inv

theorem current_register (hnone : inv.current = none) : (inv.register n).current = none := by
  unfold register
  cases n.kind <;> exact hnone

theorem addClass_eq (hnone : inv.current = none) (hname : name ≠ "") : inv.addClass name n =
    { inv with classes := attachMethods name (directMethods n) inv.classes ++ [measureClass name n] } := by
  rw [addClass, foldl_addFunction rfl hname]
  simp [directMethods, hnone]

theorem enter_eq_register (h : n.follows) (hnone : inv.current = none) : inv.enter n = inv.register n := by
  have hprovided := (Node.follows_iff.mp h).1
  unfold enter register
  cases hkind : n.kind with
  | functionDef name => simp [addFunction_of_none hnone, functionDef?, hkind]
  | classDef name =>
    rw [hkind] at hprovided
    simp [addClass_eq hnone (by simpa [Kind.isProvided] using hprovided)]
  | _ => rfl

theorem foldl_enter (h : ∀ n ∈ nodes, n.follows) (hnone : inv.current = none) :
    nodes.foldl enter inv = nodes.foldl register inv := by
  induction nodes generalizing inv with
  | nil => rfl
  | cons n rest ih =>
    obtain ⟨hn, hrest⟩ := forall_mem_cons.mp h
    rw [foldl_cons, foldl_cons, enter_eq_register hn hnone, ih hrest (current_register hnone)]

end Inventory

variable {α : Type} {i : Interpreter} {source : String} {p : Program} {f : α → Outcome Unit} {items : List α}

theorem inventory_eq (p : Program) : inventory p.tree = p.tree.walk.foldl Inventory.register {} :=
  Inventory.foldl_enter (fun _ hn => Node.follows_walk p.follows hn) rfl

theorem registerAll (part : Inventory → List α) {told : Node → Option α}
    (hstep : ∀ inv n, part (inv.register n) = part inv ++ (told n).toList) (nodes : List Node) (inv : Inventory) :
    part (nodes.foldl Inventory.register inv) = part inv ++ nodes.filterMap told := by
  induction nodes generalizing inv with
  | nil => simp
  | cons n rest ih =>
    rw [foldl_cons, ih, hstep, append_assoc, filterMap_cons]
    cases told n <;> rfl

variable (p)

theorem functions_inventory : (inventory p.tree).functions = p.tree.walk.filterMap functionDef? := by
  rw [inventory_eq]
  refine registerAll Inventory.functions (fun inv n => ?_) p.tree.walk {}
  unfold Inventory.register functionDef?
  cases n.kind <;> simp

theorem heads_functions :
    (inventory p.tree).functions.map FunctionMetrics.head = p.tree.walk.filterMap functionHead? := by
  rw [functions_inventory, map_filterMap]
  refine filterMap_congr fun n _ => ?_
  unfold functionDef? functionHead?
  cases n.kind <;> rfl

theorem heads_classes : (inventory p.tree).classes.map ClassMetrics.head = p.tree.walk.filterMap classHead? := by
  rw [inventory_eq]
  refine registerAll (fun inv => inv.classes.map ClassMetrics.head) (fun inv n => ?_) p.tree.walk {}
  unfold Inventory.register classHead?
  cases n.kind <;> simp [heads_attachMethods, ClassMetrics.head, measureClass]

/-- The interpreter takes the program, and has room for the walk that measures the nesting of each
of its functions. -/
structure Fits (i : Interpreter) (source : String) (p : Program) : Prop where
  accepted : i.refusal source p = none
  functions : ∀ path m, p.tree.at? path = some m → isFunction m = true →
    nestingWalk.before + nestingWalk.reach m ≤ i.maxCalls

theorem exists_of_forM_eq_error {e : Fault} (h : items.forM f = .error e) : ∃ a ∈ items, f a = .error e := by
  induction items with
  | nil => simp [List.forM] at h
  | cons a rest ih =>
    rw [List.forM, bind_eq_error_iff] at h
    rcases h with hfirst | ⟨-, -, hrest⟩
    · exact ⟨a, mem_cons_self, hfirst⟩
    · obtain ⟨b, hb, hfault⟩ := ih hrest
      exact ⟨b, mem_cons_of_mem a hb, hfault⟩

def nodeCheck (i : Interpreter) (n : Node) : Outcome Unit :=
  match n.kind with
  | .functionDef _ => nestingWalk.check i n
  | _ => .ok ()

theorem nodeCheck_eq_ok_iff {n : Node} : nodeCheck i n = .ok () ↔
    (isFunction n → nestingWalk.before + nestingWalk.reach n ≤ i.maxCalls) := by
  unfold nodeCheck isFunction
  cases n.kind <;> simp [Walk.check]

theorem nodeCheck_error {n : Node} {e : Fault} (h : nodeCheck i n = .error e) : ∃ text, e = .tooDeep text := by
  unfold nodeCheck at h
  split at h
  · unfold Walk.check at h
    split_ifs at h
    exact ⟨_, (Except.error.inj h).symm⟩
  · cases h

variable {p}

theorem checkNesting_eq (tree : Node) : checkNesting i tree = tree.walk.forM (nodeCheck i) := rfl

theorem fits_iff : Fits i source p ↔ i.refusal source p = none ∧ checkNesting i p.tree = .ok () := by
  rw [checkNesting_eq, forM_eq_ok_iff]
  constructor
  · intro hfits
    refine ⟨hfits.accepted, fun m hm => ?_⟩
    obtain ⟨path, hat⟩ := Node.mem_walk_iff.mp hm
    exact nodeCheck_eq_ok_iff.mpr (hfits.functions path m hat)
  · rintro ⟨haccepted, hcheck⟩
    exact ⟨haccepted, fun path m hat => nodeCheck_eq_ok_iff.mp (hcheck m (Node.mem_walk_iff.mpr ⟨path, hat⟩))⟩

section

variable (hparse : i.parse? source = some p)

include hparse

theorem measure_of_fits (hfits : Fits i source p) : measure i source = .ok (measureTree source p.tree) := by
  simp [measure, Interpreter.read_of_accepted hparse hfits.accepted, (fits_iff.mp hfits).2]

/-- Without room the metrics end with what the interpreter refuses the program with, or with too
many open calls. -/
theorem measure_of_not_fits (hfits : ¬ Fits i source p) : ∃ f, measure i source = .error f ∧
    (i.refusal source p = some f ∨ ∃ text, f = .tooDeep text) := by
  cases hrefusal : i.refusal source p with
  | some f => exact ⟨f, by simp [measure, Interpreter.read_of_refused hparse hrefusal], .inl rfl⟩
  | none =>
    cases hcheck : checkNesting i p.tree with
    | ok u => exact absurd (fits_iff.mpr ⟨hrefusal, hcheck⟩) hfits
    | error e =>
      obtain ⟨m, -, hfault⟩ := exists_of_forM_eq_error hcheck
      refine ⟨e, ?_, .inr (nodeCheck_error hfault)⟩
      simp [measure, Interpreter.read_of_accepted hparse hrefusal, hcheck]

end

theorem exists_program_of_measure {m : ModuleMetrics} (h : measure i source = .ok m) :
    ∃ p, i.parse? source = some p ∧ Fits i source p := by
  cases hparse : i.parse? source with
  | none => simp [measure, Interpreter.read, hparse] at h
  | some p =>
    refine ⟨p, rfl, ?_⟩
    by_contra hfits
    obtain ⟨f, hfault, -⟩ := measure_of_not_fits hparse hfits
    cases hfault.symm.trans h

theorem eq_ok_of_toOption {x : Outcome α} {a : α} (h : x.toOption = some a) : x = .ok a := by
  cases x with
  | error e => simp [Except.toOption] at h
  | ok b => rw [Option.some.inj h]

/-- A program for which the interpreter has room has metrics. They list every function and every
class once, with its name and its first line, in the order in which a walk comes to them. Any other
program has none, and the fault is one of the interpreter. -/
theorem measure_lists_definitions {i : Interpreter} {source : String} {p : Program}
    (hparse : i.parse? source = some p) :
    (Fits i source p → ∃ m, measure i source = .ok m ∧
      p.tree.Lists functionHead? (m.inventory.functions.map FunctionMetrics.head) ∧
      p.tree.Lists classHead? (m.inventory.classes.map ClassMetrics.head)) ∧
    (¬ Fits i source p → ∃ f, measure i source = .error f ∧
      (i.refusal source p = some f ∨ ∃ text, f = .tooDeep text)) := by
  refine ⟨?_, measure_of_not_fits hparse⟩
  intro hfits
  refine ⟨measureTree source p.tree, measure_of_fits hparse hfits, ?_, ?_⟩
  · rw [measureTree, heads_functions]
    exact p.tree.lists_walk functionHead?
  · rw [measureTree, heads_classes]
    exact p.tree.lists_walk classHead?

def mingled : String :=
  "class A:\n def f(self):\n  class B:\n   def g(self): pass\n class A:\n  def f(self): pass\ndef f(): pass\n"

def negations (count : Nat) : Chars := "def f():\n    return ".toList ++ replicate count '-' ++ ['1']

-- The two programs are evaluated at once, one for what it lists and one for how deep it is.
theorem evaluated_programs :
    (measure .standard mingled).toOption.map (fun m =>
      (m.inventory.functions.map FunctionMetrics.head, m.inventory.classes.map ClassMetrics.head)) =
      some ([("f", 7), ("f", 2), ("f", 6), ("g", 4)], [("A", 1), ("A", 5), ("B", 3)]) ∧
    (parseChars? (negations 500)).map (fun p =>
      (Interpreter.standard.refusal "" p, (checkNesting .standard p.tree).toOption)) =
      some (none, none) := by
  decide +kernel

theorem measure_lists_definitions_mingled :
    ∃ p m, Interpreter.standard.parse? mingled = some p ∧ Fits .standard mingled p ∧
      measure .standard mingled = .ok m ∧
      p.tree.Lists functionHead? [("f", 7), ("f", 2), ("f", 6), ("g", 4)] ∧
      p.tree.Lists classHead? [("A", 1), ("A", 5), ("B", 3)] := by
  obtain ⟨m, hm, hheads⟩ := Option.map_eq_some_iff.mp evaluated_programs.1
  have hmeasure := eq_ok_of_toOption hm
  obtain ⟨p, hparse, hfits⟩ := exists_program_of_measure hmeasure
  obtain ⟨m', hmeasure', hfunctions, hclasses⟩ := (measure_lists_definitions hparse).1 hfits
  obtain rfl : m = m' := Except.ok.inj (hmeasure.symm.trans hmeasure')
  obtain ⟨hnamed, hclassed⟩ := Prod.mk.inj hheads
  rw [hnamed] at hfunctions
  rw [hclassed] at hclasses
  exact ⟨p, m, hparse, hfits, hmeasure, hfunctions, hclasses⟩

theorem parse?_standard (s : Chars) : Interpreter.standard.parse? (String.ofList s) = parseChars? s := parse?_ofList s

theorem exists_negations : ∃ source p, Interpreter.standard.parse? source = some p ∧
    Interpreter.standard.refusal source p = none ∧ ¬ Fits .standard source p := by
  obtain ⟨p, hchars, hcheck⟩ := Option.map_eq_some_iff.mp evaluated_programs.2
  obtain ⟨haccepted, hnone⟩ := Prod.mk.inj hcheck
  refine ⟨_, p, (parse?_standard _).trans hchars, haccepted, fun hfits => ?_⟩
  rw [(fits_iff.mp hfits).2] at hnone
  cases hnone

/-- A function nested too deeply leaves a program without metrics. -/
theorem measure_too_deep :
    ∃ i source p, Interpreter.parse? i source = some p ∧ ∃ f, measure i source = .error f := by
  obtain ⟨_, p, hparse, -, hfits⟩ := exists_negations
  obtain ⟨f, hfault, -⟩ := measure_of_not_fits hparse hfits
  exact ⟨_, _, p, hparse, f, hfault⟩

end CodeAudit.Metrics

import CodeAudit.Proofs.ClassMethods
import CodeAudit.Proofs.TreeGrammar

/-! The summary of a module and its metrics are two counts of one tree. -/

namespace CodeAudit.Metrics

open List Syntax Node

def isGuard (n : Node) : Bool :=
  match n.kind with
  | .tryStmt | .withStmt | .assertStmt | .raiseStmt => true
  | _ => false

def groupClauses (n : Node) : Nat :=
  match n.kind with
  | .tryStar => (n.childrenIn .handlers).length
  | _ => 0

variable {n : Node}

variable (h : n.follows)

include h

theorem handlers_eq_nil (htry : n.kind ≠ .tryStmt) (hstar : n.kind ≠ .tryStar) : n.childrenIn .handlers = [] := by
  rw [eq_nil_iff_forall_not_mem]
  intro clause hclause
  have hrole := ((follows_iff.mp h).2 _ (mem_childrenIn.mp hclause)).1
  rw [(role_handler_iff hrole).mpr rfl] at hrole
  rcases role_handlers hrole with hkind | hkind
  · exact htry hkind
  · exact hstar hkind

theorem branchWeight_eq : branchWeight n + (n.childrenIn .handlers).length =
      pathWeight n + (if isGuard n then 1 else 0) + groupClauses n + if n.isHandler then 1 else 0 := by
  by_cases htry : n.kind = .tryStmt
  · simp [branchWeight, pathWeight, isGuard, groupClauses, isHandler, Kind.category, htry]
    omega
  by_cases hstar : n.kind = .tryStar
  · simp [branchWeight, pathWeight, isGuard, groupClauses, isHandler, Kind.category, hstar]
  -- elsewhere there are no clauses, and the two weights differ by the guards alone
  rw [handlers_eq_nil h htry hstar]
  unfold branchWeight pathWeight isGuard groupClauses isHandler
  cases hkind : n.kind <;> simp_all [Kind.category]

omit h in
theorem sum_branchWeight {nodes : List Node} (h : ∀ n ∈ nodes, n.follows) :
    sumOf (nodes.map branchWeight) + sumOf (nodes.map fun n => (n.childrenIn .handlers).length) =
      sumOf (nodes.map pathWeight) + nodes.countP isGuard + sumOf (nodes.map groupClauses) +
        nodes.countP isHandler := by
  induction nodes with
  | nil => rfl
  | cons n rest ih =>
    obtain ⟨hn, hrest⟩ := forall_mem_cons.mp h
    have hfirst := branchWeight_eq hn
    have hothers := ih hrest
    simp only [map_cons, sumOf, countP_cons]
    omega

theorem sum_handlers (hroot : n.isHandler = false) :
    sumOf (n.walk.map fun m => (m.childrenIn .handlers).length) = n.walk.countP isHandler := by
  have hclauses : n.walk.map (fun m => (m.childrenIn .handlers).length) =
      n.walk.map fun m => m.children.countP isHandler :=
    map_congr_left fun m hm => (countP_isHandler (follows_walk h hm)).symm
  rw [hclauses, countP_walk, hroot]
  simp

theorem complexity_eq (hroot : n.isHandler = false) :
    complexity n = pathComplexity n + n.walk.countP isGuard + sumOf (n.walk.map groupClauses) := by
  have hweights := sum_branchWeight fun m hm => follows_walk h hm
  have hclauses := sum_handlers h hroot
  unfold complexity pathComplexity
  omega

def functionPaths? (n : Node) : Option ((String × Nat) × Nat) :=
  (functionHead? n).map fun head => (head, pathComplexity n + n.walk.countP isGuard + sumOf (n.walk.map groupClauses))

theorem functionDef?_eq : (functionDef? n).map (fun f => (f.head, f.complexity)) = functionPaths? n := by
  unfold functionDef? functionPaths? functionHead?
  cases hkind : n.kind
  case functionDef name =>
    have hroot : n.isHandler = false := by simp [isHandler, hkind, Kind.category]
    simp only [Option.map_some, FunctionMetrics.head, measureFunction, complexity_eq h hroot]
  all_goals rfl

omit h

variable {p : Program}

theorem functions_paths :
    (inventory p.tree).functions.map (fun f => (f.head, f.complexity)) = p.tree.walk.filterMap functionPaths? := by
  rw [functions_inventory, map_filterMap]
  exact filterMap_congr fun m hm => functionDef?_eq (follows_walk p.follows hm)

variable (nodes : List Node)

theorem countP_isFunction : nodes.countP isFunction = (nodes.filterMap functionHead?).length := by
  rw [length_filterMap_eq_countP]
  apply countP_congr
  intro n _
  unfold isFunction functionHead?
  cases n.kind <;> simp

theorem countP_isClass : nodes.countP isClass = (nodes.filterMap classHead?).length := by
  rw [length_filterMap_eq_countP]
  apply countP_congr
  intro n _
  unfold isClass classHead?
  cases n.kind <;> simp

def nodeImports (n : Node) : List ImportEntry :=
  match n.kind with
  | .importStmt => importEntries none n
  | .importFrom source _ => importEntries (some (source.getD "")) n
  | _ => []

theorem imports_registerAll (inv : Inventory) :
    (nodes.foldl Inventory.register inv).imports = inv.imports ++ nodes.flatMap nodeImports := by
  induction nodes generalizing inv with
  | nil => simp
  | cons n rest ih =>
    have hone : (inv.register n).imports = inv.imports ++ nodeImports n := by
      unfold Inventory.register nodeImports
      cases n.kind <;> simp
    rw [foldl_cons, ih, hone, flatMap_cons, append_assoc]

theorem importEntries_ne_nil (h : n.follows) (hroles : n.kind.roles = [(.names, .alias)])
    (hsome : n.fields ≠ []) (source : Option String) : importEntries source n ≠ [] := by
  obtain ⟨⟨field, m⟩, hm⟩ := exists_mem_of_ne_nil _ hsome
  have hrole := ((follows_iff.mp h).2 _ hm).1
  rw [hroles, mem_singleton, Prod.mk.injEq] at hrole
  obtain ⟨rfl, hcategory⟩ := hrole
  have hname : m ∈ n.childrenIn .names := mem_childrenIn.mpr hm
  obtain ⟨name, asname, hkind⟩ := exists_alias hcategory
  exact ne_nil_of_mem (mem_filterMap.mpr ⟨m, hname, by rw [hkind]⟩)

theorem isImport_le_nodeImports (h : n.follows) : (if isImport n then 1 else 0) ≤ (nodeImports n).length := by
  have hprovided := (follows_iff.mp h).1
  unfold isImport nodeImports
  cases hkind : n.kind
  case importStmt =>
    rw [hkind] at hprovided
    exact length_pos_iff.mpr (importEntries_ne_nil h (by rw [hkind]; rfl)
      (by simpa [Kind.isProvided] using hprovided) none)
  case importFrom source level =>
    rw [hkind] at hprovided
    exact length_pos_iff.mpr (importEntries_ne_nil h (by rw [hkind]; rfl)
      (by simpa [Kind.isProvided] using hprovided) _)
  all_goals simp

theorem countP_isImport_le {nodes : List Node} (h : ∀ n ∈ nodes, n.follows) :
    nodes.countP isImport ≤ (nodes.flatMap nodeImports).length := by
  induction nodes with
  | nil => simp
  | cons n rest ih =>
    obtain ⟨hn, hrest⟩ := forall_mem_cons.mp h
    have hfirst := isImport_le_nodeImports hn
    have hothers := ih hrest
    rw [countP_cons, flatMap_cons, length_append]
    omega

structure Summary.Agrees (s : Summary) (m : ModuleMetrics) : Prop where
  functions : s.functions = m.inventory.functions.length
  classes : s.classes = m.inventory.classes.length
  comments : s.comments = m.comments
  loc : s.loc = m.lines
  imports : s.imports ≤ m.inventory.imports.length

theorem summaryOf_agrees (source : String) (p : Program) :
    (summaryOf source p.tree).Agrees (measureTree source p.tree) := by
  constructor
  · rw [summaryOf, countP_isFunction, ← heads_functions, length_map]
    rfl
  · rw [summaryOf, countP_isClass, ← heads_classes, length_map]
    rfl
  · rfl
  · rfl
  · have himports : (inventory p.tree).imports = p.tree.walk.flatMap nodeImports := by
      rw [inventory_eq]
      exact imports_registerAll p.tree.walk {}
    rw [measureTree, himports]
    exact countP_isImport_le fun m hm => follows_walk p.follows hm

def summaryPaths? (n : Node) : Option Nat := if isFunction n then some (pathComplexity n) else none

theorem complexity_summaryOf (source : String) (tree : Node) :
    (summaryOf source tree).complexity = sumOf (tree.walk.filterMap summaryPaths?) := by
  rw [summaryOf]
  dsimp only
  rw [← filterMap_eq_map, ← filterMap_eq_filter, filterMap_filterMap]
  congr 1
  apply filterMap_congr
  intro n _
  cases hfunction : isFunction n <;> simp [summaryPaths?, hfunction]

theorem summarize_of_accepted {i : Interpreter} {source : String} (hparse : i.parse? source = some p)
    (haccepted : i.refusal source p = none) : summarize i source = .ok (summaryOf source p.tree) := by
  simp [summarize, Interpreter.read_of_accepted hparse haccepted, Except.map]

/-- A program for which the interpreter has room has a summary and metrics, and they agree. The
metrics list every function with its complexity in the summary, and one more for every `try`,
`with`, `assert`, `raise` and clause of `except*` in it. Any other program has no metrics, and a
summary unless the interpreter refuses it. -/
theorem summary_agrees_with_metrics {i : Interpreter} {source : String} {p : Program}
    (hparse : i.parse? source = some p) :
    (Fits i source p → ∃ s m, summarize i source = .ok s ∧ measure i source = .ok m ∧ s.Agrees m ∧
      (∃ paths, p.tree.Lists summaryPaths? paths ∧ s.complexity = sumOf paths) ∧
      p.tree.Lists functionPaths? (m.inventory.functions.map fun f => (f.head, f.complexity))) ∧
    (¬ Fits i source p →
      (∃ f, measure i source = .error f ∧
        (i.refusal source p = some f ∨ ∃ text, f = .tooDeep text)) ∧
      ((∃ s, summarize i source = .ok s) ↔ i.refusal source p = none)) := by
  constructor
  · intro hfits
    refine ⟨summaryOf source p.tree, measureTree source p.tree, summarize_of_accepted hparse hfits.accepted,
      measure_of_fits hparse hfits, summaryOf_agrees source p,
      ⟨_, p.tree.lists_walk summaryPaths?, complexity_summaryOf source p.tree⟩, ?_⟩
    rw [measureTree, functions_paths]
    exact p.tree.lists_walk functionPaths?
  · intro hfits
    refine ⟨measure_of_not_fits hparse hfits, ?_, ?_⟩
    · rintro ⟨s, hs⟩
      cases hrefusal : i.refusal source p with
      | none => rfl
      | some f => simp [summarize, Interpreter.read_of_refused hparse hrefusal, Except.map] at hs
    · intro haccepted
      exact ⟨_, summarize_of_accepted hparse haccepted⟩

instance (i : Interpreter) (source : String) (p : Program) : Decidable (Fits i source p) :=
  decidable_of_iff _ fits_iff.symm

def guarded : Chars :=
  ["import a, b", "from c import d, e", "async def g():", " with x: pass", "def f(a):", " try:",
    "  assert a and b or c", "  if a: raise", " except A: pass", " except B:", "  with a:", "   def f(): pass",
    " try: pass", " except* A: pass", " except* B: pass"].flatMap fun line => line.toList ++ ['\n']

theorem complexities_guarded :
    (parseChars? guarded).map (fun p => (decide (Fits .standard (String.ofList guarded) p),
      p.tree.walk.filterMap summaryPaths?, (inventory p.tree).functions.map fun f => (f.head, f.complexity))) =
      some (true, [6, 1], [(("f", 5), 12), (("f", 12), 1)]) := by
  decide +kernel

theorem summary_agrees_with_metrics_guarded :
    ∃ source p s m, Interpreter.standard.parse? source = some p ∧ Fits .standard source p ∧
      summarize .standard source = .ok s ∧ measure .standard source = .ok m ∧
      s.Agrees m ∧ s.complexity = 7 ∧
        p.tree.Lists functionPaths? [(("f", 5), 12), (("f", 12), 1)] := by
  obtain ⟨p, hchars, hvalues⟩ := Option.map_eq_some_iff.mp complexities_guarded
  simp only [Prod.mk.injEq, decide_eq_true_eq] at hvalues
  obtain ⟨hfits, hpaths, hfunctions⟩ := hvalues
  have hparse := (parse?_standard _).trans hchars
  obtain ⟨s, m, hs, hm, hagrees, -, hlisted⟩ := (summary_agrees_with_metrics hparse).1 hfits
  obtain rfl := Except.ok.inj (hs.symm.trans (summarize_of_accepted hparse hfits.accepted))
  obtain rfl := Except.ok.inj (hm.symm.trans (measure_of_fits hparse hfits))
  refine ⟨_, p, _, _, hparse, hfits, hs, hm, hagrees, ?_, ?_⟩
  · rw [complexity_summaryOf, hpaths]
    rfl
  · rw [← hfunctions]
    exact hlisted

/-- A program can be too deep for its metrics and not for its summary. -/
theorem summary_without_metrics :
    ∃ i source p s, Interpreter.parse? i source = some p ∧ summarize i source = .ok s ∧
      ∃ f, measure i source = .error f := by
  obtain ⟨_, p, hparse, haccepted, hfits⟩ := exists_negations
  obtain ⟨f, hfault, -⟩ := measure_of_not_fits hparse hfits
  exact ⟨_, _, p, _, hparse, summarize_of_accepted hparse haccepted, f, hfault⟩

end CodeAudit.Metrics

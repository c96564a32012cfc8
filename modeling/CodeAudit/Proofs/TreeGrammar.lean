import CodeAudit.Number.Num
import CodeAudit.Proofs.TreeWalk
import CodeAudit.Syntax.Parser

/-! What the grammar of syntax trees says of one node, and what that gives when it is added up over
a walk. -/

namespace CodeAudit.Syntax

open List

namespace Node

variable {kind : Kind} {children : List (Field × Node)} {n m root : Node} {c : Category} {f : Field}

theorem followFields_iff : followFields kind children ↔
    ∀ e ∈ children, (e.1, e.2.kind.category) ∈ kind.roles ∧ e.2.follows := by
  induction children with
  | nil => simp [followFields]
  | cons e rest ih => simp [followFields, ih, and_assoc]

theorem follows_iff : n.follows ↔ n.kind.isProvided n.fields ∧
    ∀ e ∈ n.fields, (e.1, e.2.kind.category) ∈ n.kind.roles ∧ e.2.follows := by
  obtain ⟨kind, span, children⟩ := n
  rw [Node.follows, Bool.and_eq_true, followFields_iff]
  rfl

theorem mem_childrenIn : m ∈ n.childrenIn f ↔ (f, m) ∈ n.fields := by
  rw [childrenIn, mem_filterMap]
  constructor
  · rintro ⟨e, he, hsome⟩
    obtain ⟨rfl, rfl⟩ : e.1 = f ∧ e.2 = m := by simpa using hsome
    exact he
  · intro he
    exact ⟨(f, m), he, by simp⟩

theorem follows_child (h : n.follows) (hchild : m ∈ n.children) : m.follows := by
  obtain ⟨e, he, rfl⟩ := mem_map.mp hchild
  exact ((follows_iff.mp h).2 e he).2

theorem follows_at? (h : root.follows) {p : List Nat} (hat : root.at? p = some m) : m.follows := by
  induction p generalizing root with
  | nil => exact Option.some.inj hat ▸ h
  | cons i rest ih =>
    obtain ⟨child, hchild, hrest⟩ := Option.bind_eq_some_iff.mp hat
    exact ih (follows_child h (mem_of_getElem? hchild)) hrest

theorem follows_walk (h : root.follows) (hm : m ∈ root.walk) : m.follows := by
  obtain ⟨p, hat⟩ := mem_walk_iff.mp hm
  exact follows_at? h hat

theorem exists_alias (h : n.kind.category = .alias) : ∃ name asname, n.kind = .alias name asname := by
  cases hkind : n.kind <;> simp [hkind, Kind.category] at h ⊢

/-! Walks: below every node stand its children, so a walk is its root and the children of all its
nodes. -/

theorem flatMap_levels (depth : Nat) (forest : List Node) :
    (levels depth forest).flatMap Node.children = levels depth (forest.flatMap Node.children) := by
  induction depth generalizing forest with
  | zero => rfl
  | succ depth ih => rw [levels, levels, flatMap_append, ih]

theorem levels_of_height {depth : Nat} {forest : List Node} (h : ∀ n ∈ forest, n.height ≤ depth) :
    levels (depth + 1) forest = levels depth forest := by
  induction depth generalizing forest with
  | zero =>
    have hnone : forest = [] := by
      rw [eq_nil_iff_forall_not_mem]
      intro n hn
      have hheight := h n hn
      obtain ⟨kind, span, children⟩ := n
      rw [height] at hheight
      omega
    rw [hnone]
    rfl
  | succ depth ih =>
    have hlow : ∀ child ∈ forest.flatMap Node.children, child.height ≤ depth := by
      intro child hchild
      obtain ⟨n, hn, hbelow⟩ := mem_flatMap.mp hchild
      have hlower := height_lt_of_child hbelow
      have hheight := h n hn
      omega
    change forest ++ levels (depth + 1) _ = forest ++ levels depth _
    rw [ih hlow]

theorem walk_eq_cons (n : Node) : n.walk = n :: n.walk.flatMap Node.children := by
  have hlevels : levels (n.height + 1) [n] = n.walk := by
    apply levels_of_height
    simp
  have hbelow : n.walk.flatMap Node.children = levels n.height n.children := by
    rw [Node.walk, flatMap_levels, flatMap_singleton]
  rw [hbelow, ← hlevels, levels, flatMap_singleton, singleton_append]

theorem countP_children (p : Node → Bool) (nodes : List Node) :
    (nodes.flatMap Node.children).countP p = sumOf (nodes.map fun m => m.children.countP p) := by
  induction nodes with
  | nil => rfl
  | cons m rest ih => rw [flatMap_cons, countP_append, ih, map_cons, sumOf]

theorem countP_walk (p : Node → Bool) (n : Node) :
    n.walk.countP p = (if p n then 1 else 0) + sumOf (n.walk.map fun m => m.children.countP p) := by
  have hcount := congrArg (List.countP p) n.walk_eq_cons
  rw [countP_cons, countP_children, Nat.add_comm] at hcount
  exact hcount

/-! Clauses of `try` statements. -/

def isHandler (n : Node) : Bool := n.kind.category = .handler

theorem role_handler_iff (h : (f, c) ∈ kind.roles) : c = .handler ↔ f = .handlers := by
  cases kind <;> simp [Kind.roles] at h <;> grind

theorem role_handlers (h : (f, Category.handler) ∈ kind.roles) : kind = .tryStmt ∨ kind = .tryStar := by
  cases kind <;> simp [Kind.roles] at h <;> simp

theorem countP_isHandler (h : n.follows) : n.children.countP isHandler = (n.childrenIn .handlers).length := by
  rw [Node.children, Node.childrenIn, countP_map, length_filterMap_eq_countP]
  apply countP_congr
  intro e he
  have hrole := role_handler_iff ((follows_iff.mp h).2 e he).1
  by_cases hfield : e.1 = .handlers
  · simp [hfield, isHandler, hrole.mpr hfield]
  · simp [hfield, isHandler, mt hrole.mp hfield]

end Node

/-! Reading for a walk: it goes on with the tree, or ends with a fault of the interpreter. -/

/-- The interpreter takes the program, and has room for the calls of the walk. -/
structure Walk.Admits (w : Walk) (i : Interpreter) (source : String) (p : Program) : Prop where
  accepted : i.refusal source p = none
  calls : w.before + w.reach p.tree ≤ i.maxCalls

instance (w : Walk) (i : Interpreter) (source : String) (p : Program) : Decidable (w.Admits i source p) :=
  decidable_of_iff (i.refusal source p = none ∧ w.before + w.reach p.tree ≤ i.maxCalls)
    ⟨fun h => ⟨h.1, h.2⟩, fun h => ⟨h.accepted, h.calls⟩⟩

theorem Interpreter.read_eq_ok_iff (i : Interpreter) {source : String} {p : Program} :
    i.read source = .ok p ↔ i.parse? source = some p ∧ i.refusal source p = none := by
  unfold Interpreter.read
  cases i.parse? source with
  | none => simp
  | some q => cases hrefusal : i.refusal source q <;> simp <;> grind

section

variable {i : Interpreter} {source : String} {p : Program} (hparse : i.parse? source = some p)

include hparse

theorem Interpreter.read_of_accepted (h : i.refusal source p = none) : i.read source = .ok p := by
  simp [Interpreter.read, hparse, h]

theorem Interpreter.read_of_refused {f : Fault} (h : i.refusal source p = some f) : i.read source = .error f := by
  simp [Interpreter.read, hparse, h]

variable {α : Type} {w : Walk} (k : Node → Outcome α)

theorem Walk.Admits.read (h : w.Admits i source p) : (do
      let p ← i.read source
      w.check i p.tree
      k p.tree) = k p.tree := by
  simp [Interpreter.read_of_accepted hparse h.accepted, Walk.check, Nat.not_lt.mpr h.calls]

theorem Walk.read_too_deep (h : ¬ w.Admits i source p) : ∃ f, f ≠ .badProgram ∧ (do
      let p ← i.read source
      w.check i p.tree
      k p.tree) = .error f := by
  cases hrefusal : i.refusal source p with
  | none =>
    have hcalls : i.maxCalls < w.before + w.reach p.tree := Nat.lt_of_not_le fun hcalls => h ⟨hrefusal, hcalls⟩
    exact ⟨.tooDeep "maximum recursion depth exceeded", by simp,
      by simp [Interpreter.read_of_accepted hparse hrefusal, Walk.check, hcalls]⟩
  | some f =>
    refine ⟨f, fun hf => i.refusal_ne source p (hrefusal.trans (congrArg some hf)), ?_⟩
    rw [Interpreter.read_of_refused hparse hrefusal, error_bind]

end

end CodeAudit.Syntax

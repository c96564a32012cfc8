import CodeAudit.Audit
import CodeAudit.Metrics
import CodeAudit.Proofs.JsonLine
import CodeAudit.Proofs.TreeGrammar

/-! When a quality audit fails. The parameters of a function have no line of their own, so the first
function that stands in no other one ends the audit. -/

namespace CodeAudit.Audit

open List Syntax Metrics String Prod

/-! Functions that stand in no other. -/

variable {f : Node}

mutual

theorem outerFunctions_sublist : ∀ n : Node, outerFunctions n <+ n.preorder.filter isFunction ∧
    (outerFunctions n = [] → n.preorder.filter isFunction = [])
  | .mk kind span children => by
    have hbelow := outerFunctionsOfFields_sublist children
    unfold outerFunctions
    split
    · exact ⟨by simp [Node.preorder, isFunction, Node.kind], by simp⟩
    · have hroot : isFunction (.mk kind span children) = false := by
        unfold isFunction
        split <;> simp_all [Node.kind]
      simpa [Node.preorder, hroot] using hbelow

theorem outerFunctionsOfFields_sublist : ∀ children : List (Field × Node),
    outerFunctionsOfFields children <+ (Node.preorderFields children).filter isFunction ∧
      (outerFunctionsOfFields children = [] → (Node.preorderFields children).filter isFunction = [])
  | [] => ⟨.slnil, fun _ => rfl⟩
  | (field, child) :: rest => by
    obtain ⟨hchild, hnone⟩ := outerFunctions_sublist child
    obtain ⟨hrest, hnones⟩ := outerFunctionsOfFields_sublist rest
    rw [outerFunctionsOfFields, Node.preorderFields, filter_append, append_eq_nil_iff, append_eq_nil_iff]
    exact ⟨hchild.append hrest, And.imp hnone hnones⟩

end

variable {tree : Node}

theorem outerFunctions_eq_nil_iff : outerFunctions tree = [] ↔ ∀ p f, tree.at? p = some f → isFunction f = false := by
  obtain ⟨hsub, hnil⟩ := outerFunctions_sublist tree
  have hnone : outerFunctions tree = [] ↔ tree.preorder.filter isFunction = [] :=
    ⟨hnil, fun h => sublist_nil.mp (h ▸ hsub)⟩
  simp only [hnone, filter_eq_nil_iff, Node.mem_preorder_iff, Bool.not_eq_true]
  exact ⟨fun h p f hat => h f ⟨p, hat⟩, fun h f hf => hf.elim fun p => h p f⟩

def noLine : Fault := .noAttribute "'arguments' object has no attribute 'lineno'"

theorem lineOf_arguments {n : Node} (h : n.kind.category = .arguments) : lineOf n = .error noLine := by
  unfold lineOf
  cases hkind : n.kind <;> simp [hkind, Kind.category] at h
  rfl

theorem functionFindings_eq (hfollows : f.follows) (hfunction : isFunction f) :
    functionFindings f = .error noLine := by
  obtain ⟨name, hkind⟩ : ∃ name, f.kind = .functionDef name := by
    unfold isFunction at hfunction
    split at hfunction
    · exact ⟨_, ‹_›⟩
    · cases hfunction
  have hprovided := (Node.follows_iff.mp hfollows).1
  rw [hkind] at hprovided
  obtain ⟨args, rest, hfields, hargs⟩ : ∃ args rest, f.fields = (.args, args) :: rest ∧
      args.kind.category = .arguments := by
    unfold Kind.isProvided at hprovided
    cases hfields : f.fields with
    | nil => simp [hfields] at hprovided
    | cons e rest =>
      obtain ⟨hrole, hcategory⟩ : e.1 = .args ∧ e.2.kind.category = .arguments := by
        simpa [hfields] using hprovided
      exact ⟨e.2, rest, by rw [← hrole], hcategory⟩
  obtain ⟨others, hwalk⟩ : ∃ others, f.walk = f :: args :: others := by
    have hwalk := f.walk_eq_cons
    have hchildren : f.children = args :: rest.map snd := by rw [Node.children, hfields]; rfl
    rw [f.walk_eq_cons, flatMap_cons, hchildren] at hwalk
    exact ⟨_, f.walk_eq_cons.trans hwalk⟩
  have hown : lineOf f = .ok f.line := by rw [lineOf, hkind]
  have hsize : functionSize f = .error noLine := by
    rw [functionSize, hwalk, mapM_cons, mapM_cons, hown, lineOf_arguments hargs]
    rfl
  rw [functionFindings, hsize]
  rfl

theorem mapM_functionFindings {functions : List Node} (hsome : functions ≠ [])
    (h : ∀ f ∈ functions, functionFindings f = .error noLine) : functions.mapM functionFindings = .error noLine := by
  obtain ⟨f, rest, rfl⟩ := exists_cons_of_ne_nil hsome
  rw [mapM_cons, h f mem_cons_self]
  rfl

/-! Branches, when there are no functions. -/

def isBranch (n : Node) : Bool :=
  match n.kind with
  | .ifStmt | .whileLoop | .forLoop | .exceptHandler _ => true
  | _ => false

mutual

theorem branches_eq : ∀ {n : Node}, (∀ m ∈ n.preorder, isFunction m = false) → branches n = n.preorder.countP isBranch
  | .mk kind span children, h => by
    obtain ⟨hroot, hbelow⟩ := forall_mem_cons.mp h
    rw [Node.preorder, countP_cons, ← branchesOfFields_eq hbelow]
    unfold isFunction at hroot
    cases kind <;> simp [branches, isBranch, Node.kind] at hroot ⊢ <;> omega

theorem branchesOfFields_eq : ∀ {children : List (Field × Node)},
    (∀ m ∈ Node.preorderFields children, isFunction m = false) →
      branchesOfFields children = (Node.preorderFields children).countP isBranch
  | [], _ => rfl
  | (field, child) :: rest, h => by
    obtain ⟨hchild, hrest⟩ := forall_mem_append.mp h
    rw [branchesOfFields, branches_eq hchild, branchesOfFields_eq hrest, Node.preorderFields, countP_append]

end

/-! Blocks of lines that come again. -/

variable (entries : List (List String × Nat))

def groupsOf : List (List String × List Nat) :=
  (entries.map Prod.fst).eraseDups.map fun block => (block, (entries.filter fun e => e.1 = block).map Prod.snd)

theorem addToGroup_map (block : List String) (line : Nat) {blocks : List (List String)} (hnodup : blocks.Nodup)
    (numbers : List String → List Nat) : addToGroup block line (blocks.map fun b => (b, numbers b)) =
      (blocks.map fun b => (b, if b = block then numbers b ++ [line] else numbers b)) ++
        if block ∈ blocks then [] else [(block, [line])] := by
  induction blocks with
  | nil => rfl
  | cons b rest ih =>
    obtain ⟨hb, hrest⟩ := nodup_cons.mp hnodup
    rw [map_cons, addToGroup]
    by_cases hfirst : b = block
    · subst hfirst
      have hothers : ∀ c ∈ rest, (c, if c = b then numbers c ++ [line] else numbers c) = (c, numbers c) := by
        intro c hc
        have hne : c ≠ b := by
          rintro rfl
          exact hb hc
        rw [if_neg hne]
      rw [map_cons, map_congr_left hothers]
      simp
    · rw [if_neg hfirst, ih hrest, map_cons, if_neg hfirst]
      simp [Ne.symm hfirst]

theorem nodup_eraseDups {α : Type} [BEq α] [LawfulBEq α] (as : List α) : as.eraseDups.Nodup := by
  induction as using reverseRecOn with
  | nil => simp
  | append_singleton as b ih =>
    rw [eraseDups_snoc]
    by_cases hb : b ∈ as
    · simpa [hb] using ih
    · rw [if_neg hb]
      refine nodup_append.mpr ⟨ih, pairwise_singleton _ b, ?_⟩
      intro a ha c hc
      rw [mem_singleton.mp hc]
      rintro rfl
      exact hb (mem_eraseDups.mp ha)

theorem groupsOf_snoc (block : List String) (line : Nat) :
    groupsOf (entries ++ [(block, line)]) = addToGroup block line (groupsOf entries) := by
  have hnumbers (b : List String) : ((entries ++ [(block, line)]).filter fun e => e.1 = b).map snd =
      if b = block then ((entries.filter fun e => e.1 = b).map snd) ++ [line]
      else (entries.filter fun e => e.1 = b).map snd := by
    by_cases hb : b = block
    · simp [hb]
    · simp [hb, Ne.symm hb]
  rw [groupsOf, groupsOf, addToGroup_map block line (nodup_eraseDups _), map_append, map_singleton,
    eraseDups_snoc, map_append]
  simp only [hnumbers, mem_eraseDups]
  by_cases hblock : block ∈ entries.map fst
  · simp only [if_pos hblock, map_nil]
  · have hnone : entries.filter (fun e => e.1 = block) = [] := by
      rw [filter_eq_nil_iff]
      intro e he heq
      exact hblock (mem_map.mpr ⟨e, he, by simpa using heq⟩)
    simp only [if_neg hblock, map_singleton, hnone, map_nil, nil_append, if_true]

variable (lines : List String)

def filledBlocks : List (List String × Nat) := (lineBlocks lines).filter fun e => !isBlankBlock e.1

theorem blockGroups_eq : blockGroups lines = groupsOf (filledBlocks lines) := by
  -- The groups so far are those of the blocks so far.
  suffices h : ∀ rest entries : List (List String × Nat),
      rest.foldl (fun groups e => if isBlankBlock e.1 then groups else addToGroup e.1 e.2 groups) (groupsOf entries) =
        groupsOf (entries ++ rest.filter fun e => !isBlankBlock e.1) from h (lineBlocks lines) []
  intro rest
  induction rest with
  | nil => simp
  | cons e rest ih =>
    intro entries
    rw [foldl_cons]
    by_cases hblank : isBlankBlock e.1
    · rw [if_pos hblank, ih]
      simp [hblank]
    · rw [if_neg hblank, ← groupsOf_snoc, ih]
      simp [hblank]

def repeatedBlocks : List (List Nat) :=
  ((groupsOf (filledBlocks lines)).map Prod.snd).filter fun numbers => 1 < numbers.length

theorem duplications_eq : duplications lines = repeatedBlocks lines := by
  rw [duplications, repeatedBlocks, blockGroups_eq, filter_map]
  rfl

/-! The report of a module without functions. -/

variable (source : String)

def plainMetrics (tree : Node) : QualityMetrics where
  complexity := tree.walk.countP isBranch
  duplications := (repeatedBlocks (Text.splitOn '\n' source)).length
  commentRatio := floatRound 2 (commentRatio (Text.splitOn '\n' source))

def plainFindings (tree : Node) : List Finding :=
  complexityFindings (tree.walk.countP isBranch) ++ duplicationFindings (repeatedBlocks (Text.splitOn '\n' source)) ++
    lineFindings (Text.splitOn '\n' source) ++ nameFindings tree ++
    commentFindings (commentRatio (Text.splitOn '\n' source))

def plainReport (tree : Node) : QualityReport where
  findings := plainFindings source tree
  metrics := some (plainMetrics source tree)
  score := qualityScore (plainFindings source tree) (plainMetrics source tree)

variable (source : String)

theorem qualitySteps_of_plain (h : outerFunctions tree = []) :
    qualitySteps source tree = .ok (plainReport source tree) := by
  have hbranches : branches tree = tree.walk.countP isBranch := by
    rw [branches_eq, tree.preorder_perm_walk.countP_eq]
    intro m hm
    obtain ⟨p, hat⟩ := Node.mem_preorder_iff.mp hm
    exact outerFunctions_eq_nil_iff.mp h p m hat
  simp only [qualitySteps, h, hbranches, duplications_eq, mapM_nil, ok_bind, pure_eq_ok, flatten_nil, append_nil]
  rfl

theorem kind_complexityFindings {f : Finding} {count : Nat} (h : f ∈ complexityFindings count) :
    f.kind = "high_complexity" := by
  unfold complexityFindings at h
  split_ifs at h
  · rw [mem_singleton.mp h]
  · cases h

theorem kind_lineFindings {f : Finding} {lines : List String} (h : f ∈ lineFindings lines) :
    f.kind = "line_length" := by
  obtain ⟨e, -, he⟩ := mem_filterMap.mp h
  dsimp only at he
  split_ifs at he
  rw [← Option.some.inj he]

theorem kind_nameFindings {f : Finding} {tree : Node} (h : f ∈ nameFindings tree) : f.kind = "naming_convention" := by
  obtain ⟨n, -, hn⟩ := mem_filterMap.mp h
  split at hn
  · split_ifs at hn
    rw [← Option.some.inj hn]
  · cases hn

theorem kind_commentFindings {f : Finding} {ratio : Float} (h : f ∈ commentFindings ratio) :
    f.kind = "low_comments" := by
  unfold commentFindings at h
  split_ifs at h
  · rw [mem_singleton.mp h]
  · cases h

theorem kind_plainFindings {source : String} {f : Finding} (h : f ∈ plainFindings source tree) :
    f.kind ≠ "analysis_error" := by
  simp only [plainFindings, mem_append] at h
  rcases h with (((h | h) | h) | h) | h
  · simp [kind_complexityFindings h]
  · obtain ⟨numbers, -, rfl⟩ := mem_map.mp h
    simp
  · simp [kind_lineFindings h]
  · simp [kind_nameFindings h]
  · simp [kind_commentFindings h]

theorem qualitySteps_of_function (hfollows : tree.follows) (h : outerFunctions tree ≠ []) :
    qualitySteps source tree = .error noLine := by
  have hfunctions : ∀ f ∈ outerFunctions tree, functionFindings f = .error noLine := by
    intro f hf
    obtain ⟨hmem, hfunction⟩ := mem_filter.mp ((outerFunctions_sublist tree).1.mem hf)
    obtain ⟨p, hat⟩ := Node.mem_preorder_iff.mp hmem
    exact functionFindings_eq (Node.follows_at? hfollows hat) hfunction
  simp only [qualitySteps, mapM_functionFindings h hfunctions, error_bind]

def QualityReport.Failed (r : QualityReport) : Prop :=
  r.findings.map Finding.kind = ["analysis_error"] ∧ r.score = 0.0

theorem failed_failedAudit (f : Fault) : (failedAudit f).Failed := ⟨rfl, rfl⟩

theorem not_failed_plainReport (tree : Node) : ¬ (plainReport source tree).Failed := by
  rintro ⟨hkinds, -⟩
  obtain ⟨f, hf, hkind⟩ : ∃ f ∈ plainFindings source tree, f.kind = "analysis_error" := by
    rw [← mem_map]
    exact hkinds ▸ mem_singleton_self _
  exact kind_plainFindings hf hkind

section

variable {i : Interpreter} {source : String} {program : Program}

/-- The quality audit of a module fails exactly if there is a function somewhere in its tree, or if
the tree is too deep. The fault of a function is that its parameters have no line. Every other
module gets its report. -/
theorem quality_audit_fails_iff (hparse : i.parse? source = some program) :
    ((auditQuality i source).Failed ↔
      (∃ p f, program.tree.at? p = some f ∧ isFunction f = true) ∨
        ¬ branchWalk.Admits i source program) ∧
    (branchWalk.Admits i source program →
      (∃ p f, program.tree.at? p = some f ∧ isFunction f = true) →
      auditQuality i source = failedAudit noLine) ∧
    (branchWalk.Admits i source program →
      (∀ p f, program.tree.at? p = some f → isFunction f = false) →
      auditQuality i source = plainReport source program.tree) := by
  have hfunction (hadmits : branchWalk.Admits i source program)
      (hsome : ∃ p f, program.tree.at? p = some f ∧ isFunction f = true) :
      auditQuality i source = failedAudit noLine := by
    obtain ⟨p, f, hat, hf⟩ := hsome
    have houter : outerFunctions program.tree ≠ [] := fun hnone => by
      rw [outerFunctions_eq_nil_iff.mp hnone p f hat] at hf
      cases hf
    rw [auditQuality, hadmits.read hparse (qualitySteps source),
      qualitySteps_of_function source program.follows houter]
  have hplain (hadmits : branchWalk.Admits i source program)
      (hnone : ∀ p f, program.tree.at? p = some f → isFunction f = false) :
      auditQuality i source = plainReport source program.tree := by
    rw [auditQuality, hadmits.read hparse (qualitySteps source),
      qualitySteps_of_plain source (outerFunctions_eq_nil_iff.mpr hnone)]
  refine ⟨?_, hfunction, hplain⟩
  by_cases hadmits : branchWalk.Admits i source program
  · by_cases hsome : ∃ p f, program.tree.at? p = some f ∧ isFunction f = true
    · rw [hfunction hadmits hsome]
      exact iff_of_true (failed_failedAudit noLine) (.inl hsome)
    · have hnone : ∀ p f, program.tree.at? p = some f → isFunction f = false := by
        intro p f hat
        by_contra hf
        exact hsome ⟨p, f, hat, by simpa using hf⟩
      rw [hplain hadmits hnone]
      refine iff_of_false (not_failed_plainReport source program.tree) ?_
      rintro (h | h)
      · exact hsome h
      · exact h hadmits
  · obtain ⟨f, -, hdeep⟩ := Walk.read_too_deep hparse (qualitySteps source) hadmits
    rw [auditQuality, hdeep]
    exact iff_of_true (failed_failedAudit f) (.inr hadmits)

end

def buried : Chars :=
  ["async def g():", " while a:", "  class A:", "   def f(self): pass"].flatMap fun line => line.toList ++ ['\n']

def unburied : Chars :=
  ["async def g():", " while a:", "  try: pass", "  except A: pass"].flatMap fun line => line.toList ++ ['\n']

theorem outerFunctions_buried : (parseChars? buried).map (fun program =>
      (decide (branchWalk.Admits .standard (String.ofList buried) program),
        (program.tree.at? [0, 1, 1, 0]).map isFunction)) = some (true, some true) := by
  decide +kernel

theorem outerFunctions_unburied : (parseChars? unburied).map (fun program =>
      (decide (branchWalk.Admits .standard (String.ofList unburied) program),
        (outerFunctions program.tree).isEmpty, program.tree.walk.countP isBranch)) = some (true, true, 2) := by
  decide +kernel

theorem quality_audit_fails_iff_buried :
    (∃ program, Interpreter.standard.parse? (String.ofList buried) = some program ∧
      (auditQuality .standard (String.ofList buried)).Failed) ∧
    ∃ program, Interpreter.standard.parse? (String.ofList unburied) = some program ∧
      ¬ (auditQuality .standard (String.ofList unburied)).Failed ∧
      (auditQuality .standard (String.ofList unburied)).metrics.map QualityMetrics.complexity =
        some 2 := by
  constructor
  · obtain ⟨program, hchars, hvalues⟩ := Option.map_eq_some_iff.mp outerFunctions_buried
    obtain ⟨-, hmethod⟩ := Prod.mk.inj hvalues
    obtain ⟨f, hat, hf⟩ := Option.map_eq_some_iff.mp hmethod
    have hparse : Interpreter.standard.parse? (String.ofList buried) = some program :=
      (parse?_ofList _).trans hchars
    exact ⟨program, hparse, (quality_audit_fails_iff hparse).1.mpr (.inl ⟨_, f, hat, hf⟩)⟩
  · obtain ⟨program, hchars, hvalues⟩ := Option.map_eq_some_iff.mp outerFunctions_unburied
    simp only [Prod.mk.injEq, decide_eq_true_eq, List.isEmpty_iff] at hvalues
    obtain ⟨hadmits, hnone, hbranches⟩ := hvalues
    have hparse : Interpreter.standard.parse? (String.ofList unburied) = some program :=
      (parse?_ofList _).trans hchars
    have hreport := (quality_audit_fails_iff hparse).2.2 hadmits (outerFunctions_eq_nil_iff.mp hnone)
    refine ⟨program, hparse, ?_, ?_⟩
    · rw [hreport]
      exact not_failed_plainReport _ program.tree
    · rw [hreport, plainReport, Option.map_some, plainMetrics, hbranches]

def negated (count : Nat) : Chars := (replicate count "not ".toList).flatten ++ ['1']

theorem outerFunctions_negated : (parseChars? (negated 500)).map (fun program =>
      (decide (branchWalk.Admits .standard (String.ofList (negated 500)) program),
        (outerFunctions program.tree).isEmpty)) = some (false, true) := by
  decide +kernel

/-- A tree that is too deep fails the audit although it has no function. -/
theorem quality_audit_fails_without_function :
    ∃ i source program, Interpreter.parse? i source = some program ∧
      (∀ p f, program.tree.at? p = some f → isFunction f = false) ∧
        (auditQuality i source).Failed := by
  obtain ⟨program, hchars, hvalues⟩ := Option.map_eq_some_iff.mp outerFunctions_negated
  simp only [Prod.mk.injEq, decide_eq_false_iff_not, List.isEmpty_iff] at hvalues
  obtain ⟨hdeep, hnone⟩ := hvalues
  have hparse : Interpreter.standard.parse? (String.ofList (negated 500)) = some program :=
    (parse?_ofList _).trans hchars
  obtain ⟨f, -, hfault⟩ := Walk.read_too_deep hparse (qualitySteps _) hdeep
  refine ⟨_, _, program, hparse, outerFunctions_eq_nil_iff.mp hnone, ?_⟩
  rw [auditQuality, hfault]
  exact failed_failedAudit f

/-! What the quality audit reports of blocks of lines that come more than once: one finding for each
such block, with the numbers of all lines at which it starts. -/

theorem join_inj {a b : List String} (ha : ∀ line ∈ a, '\n' ∉ line.toList) (hb : ∀ line ∈ b, '\n' ∉ line.toList)
    (hlength : a.length = b.length) : Text.join "\n" a = Text.join "\n" b ↔ a = b := by
  have hcut {lines : List String} (h : ∀ line ∈ lines, '\n' ∉ line.toList) (hne : lines ≠ []) :
      Chars.splitOn '\n' (Text.join "\n" lines).toList = lines.map String.toList := by
    obtain ⟨first, rest, rfl⟩ := exists_cons_of_ne_nil hne
    rw [Text.join, String.toList_intercalate, map_cons, show "\n".toList = ['\n'] from rfl, Chars.splitOn_intercalate,
      ← map_cons, flatMap_map, map_eq_flatMap]
    exact flatMap_congr fun line hline => Chars.splitOn_of_notMem (h line hline)
  refine ⟨fun h => ?_, fun h => h ▸ rfl⟩
  cases a with
  | nil => exact (length_eq_zero_iff.mp hlength.symm).symm
  | cons first rest =>
    have hne : b ≠ [] := by
      rintro rfl
      cases hlength
    have hpieces := congrArg (fun s => Chars.splitOn '\n' s.toList) h
    rw [hcut ha (cons_ne_nil first rest), hcut hb hne] at hpieces
    exact (map_inj_right fun _ _ => String.toList_injective).mp hpieces

variable {lines block : List String}

def blockAt (lines : List String) (k : Nat) : List String := (lines.drop (k - 1)).take blockSize

def StartsBlock (lines : List String) (k : Nat) : Prop := 1 ≤ k ∧ k + blockSize ≤ lines.length + 1

theorem mem_lineBlocks {k : Nat} : (block, k) ∈ lineBlocks lines ↔ StartsBlock lines k ∧ blockAt lines k = block := by
  simp only [lineBlocks, mem_map, mem_range, Prod.mk.injEq, StartsBlock]
  constructor
  · rintro ⟨i, hi, rfl, rfl⟩
    exact ⟨by omega, rfl⟩
  · rintro ⟨hk, rfl⟩
    exact ⟨k - 1, by omega, rfl, by omega⟩

def numbersOf (lines : List String) (block : List String) : List Nat :=
  ((filledBlocks lines).filter fun e => e.1 = block).map Prod.snd

theorem mem_numbersOf {k : Nat} :
    k ∈ numbersOf lines block ↔ StartsBlock lines k ∧ blockAt lines k = block ∧ isBlankBlock block = false := by
  have hmem : k ∈ numbersOf lines block ↔ (block, k) ∈ lineBlocks lines ∧ isBlankBlock block = false := by
    simp [numbersOf, filledBlocks]
  rw [hmem, mem_lineBlocks, and_assoc]

theorem numbersOf_pairwise (block : List String) : (numbersOf lines block).Pairwise (· < ·) := by
  have hall : ((lineBlocks lines).map Prod.snd).Pairwise (· < ·) := by
    rw [lineBlocks, List.map_map, pairwise_map]
    exact pairwise_lt_range.imp fun h => Nat.succ_lt_succ h
  exact hall.sublist ((filter_sublist.trans filter_sublist).map Prod.snd)

theorem mem_duplications {numbers : List Nat} : numbers ∈ duplications lines ↔
    ∃ block ∈ (filledBlocks lines).map Prod.fst, numbersOf lines block = numbers ∧ 1 < numbers.length := by
  simp only [duplications_eq, repeatedBlocks, groupsOf, numbersOf, List.map_map, mem_filter, mem_map, mem_eraseDups,
    decide_eq_true_eq, Function.comp_apply]
  constructor
  · rintro ⟨⟨block, hblock, rfl⟩, hlength⟩
    exact ⟨block, hblock, rfl, hlength⟩
  · rintro ⟨block, hblock, rfl, hlength⟩
    exact ⟨⟨block, hblock, rfl⟩, hlength⟩

theorem same_duplication_iff {i j : Nat} (hi : StartsBlock lines i) (hj : StartsBlock lines j) (hij : i < j) :
    (∃ numbers ∈ duplications lines, i ∈ numbers ∧ j ∈ numbers) ↔
      blockAt lines i = blockAt lines j ∧ isBlankBlock (blockAt lines i) = false := by
  constructor
  · rintro ⟨numbers, hnumbers, hin, hjn⟩
    obtain ⟨block, -, rfl, -⟩ := mem_duplications.mp hnumbers
    obtain ⟨-, hblock, hfilled⟩ := mem_numbersOf.mp hin
    obtain ⟨-, hblock', -⟩ := mem_numbersOf.mp hjn
    exact ⟨hblock.trans hblock'.symm, hblock ▸ hfilled⟩
  · rintro ⟨hsame, hfilled⟩
    have hin : i ∈ numbersOf lines (blockAt lines i) := mem_numbersOf.mpr ⟨hi, rfl, hfilled⟩
    have hjn : j ∈ numbersOf lines (blockAt lines i) := mem_numbersOf.mpr ⟨hj, hsame.symm, hfilled⟩
    refine ⟨_, mem_duplications.mpr ⟨blockAt lines i, ?_, rfl, ?_⟩, hin, hjn⟩
    · have hblock : (blockAt lines i, i) ∈ filledBlocks lines :=
        mem_filter.mpr ⟨mem_lineBlocks.mpr ⟨hi, rfl⟩, by simp [hfilled]⟩
      exact mem_map_of_mem hblock
    · by_contra hshort
      obtain ⟨k, hk⟩ := length_eq_one_iff.mp (Nat.le_antisymm (not_lt.mp hshort) (length_pos_of_mem hin))
      rw [hk, mem_singleton] at hin hjn
      omega

theorem duplications_disjoint : (duplications lines).Pairwise List.Disjoint := by
  rw [duplications_eq, repeatedBlocks, groupsOf, List.map_map]
  refine Pairwise.filter _ (pairwise_map.mpr ((nodup_eraseDups _).imp fun {a b} hne k hka hkb => hne ?_))
  obtain ⟨-, rfl, -⟩ := mem_numbersOf.mp hka
  exact (mem_numbersOf.mp hkb).2.1

theorem auditQuality_of_metrics {i : Interpreter} {source : String} {m : QualityMetrics}
    (h : (auditQuality i source).metrics = some m) : ∃ tree, auditQuality i source = plainReport source tree := by
  unfold auditQuality at h ⊢
  split at h
  next r hread =>
    obtain ⟨program, -, hread⟩ := bind_eq_ok_iff.mp hread
    obtain ⟨-, -, hsteps⟩ := bind_eq_ok_iff.mp hread
    have hnone : outerFunctions program.tree = [] := by
      by_contra hsome
      rw [qualitySteps_of_function source program.follows hsome] at hsteps
      cases hsteps
    rw [qualitySteps_of_plain source hnone] at hsteps
    exact ⟨program.tree, (Except.ok.inj hsteps).symm⟩
  next => cases h

theorem filter_plainFindings (source : String) (tree : Node) :
    (plainFindings source tree).filter (fun f => f.kind = "code_duplication") =
      duplicationFindings (duplications (Text.splitOn '\n' source)) := by
  have hother {found : List Finding} {kind : String} (h : ∀ f ∈ found, f.kind = kind)
      (hkind : kind ≠ "code_duplication") :
      found.filter (fun f => f.kind = "code_duplication") = [] :=
    filter_eq_nil_iff.mpr fun f hf => by simpa [h f hf] using hkind
  rw [plainFindings, filter_append, filter_append, filter_append, filter_append,
    hother (fun _ => kind_complexityFindings) (by decide), hother (fun _ => kind_lineFindings) (by decide),
    hother (fun _ => kind_nameFindings) (by decide), hother (fun _ => kind_commentFindings) (by decide),
    nil_append, append_nil, append_nil, append_nil, duplications_eq]
  exact filter_eq_self.mpr (forall_mem_map.mpr fun _ _ => rfl)

/-- Two blocks of lines are told in one finding exactly if they have the same lines and are not
blank. Every finding gives the first lines of its blocks in their order, at least two of them, and
no block is in two findings. If the audit gets to its metrics, it counts these findings and reports
them. -/
theorem repeated_blocks_reported_once (interpreter : Interpreter) (source : String) :
    let lines := Text.splitOn '\n' source
    (∀ i j, StartsBlock lines i → StartsBlock lines j → i < j →
      ((∃ numbers ∈ duplications lines, i ∈ numbers ∧ j ∈ numbers) ↔
        blockAt lines i = blockAt lines j ∧ isBlankBlock (blockAt lines i) = false) ∧
      (Text.join "\n" (blockAt lines i) = Text.join "\n" (blockAt lines j) ↔ blockAt lines i = blockAt lines j)) ∧
    (duplications lines).Pairwise List.Disjoint ∧
    (∀ numbers ∈ duplications lines,
      2 ≤ numbers.length ∧ numbers.Pairwise (· < ·) ∧ ∀ k ∈ numbers, StartsBlock lines k) ∧
    (duplicationFindings (duplications lines)).map (fun f => (f.kind, f.message, f.line)) =
      (duplications lines).map (fun numbers => ("code_duplication",
        "Code dupliqué trouvé aux lignes " ++ Text.join ", " (numbers.map natText), numbers.head?)) ∧
    ∀ m, (auditQuality interpreter source).metrics = some m → m.duplications = (duplications lines).length ∧
      (auditQuality interpreter source).findings.filter (fun f => f.kind = "code_duplication") =
        duplicationFindings (duplications lines) := by
  intro lines
  have hline (k : Nat) : ∀ line ∈ blockAt lines k, '\n' ∉ line.toList := by
    intro line hline
    obtain ⟨piece, hpiece, rfl⟩ := mem_map.mp (mem_of_mem_drop (mem_of_mem_take hline))
    rw [String.toList_ofList]
    exact Chars.notMem_of_mem_splitOn hpiece
  have hlength {k : Nat} (hk : StartsBlock lines k) : (blockAt lines k).length = blockSize := by
    obtain ⟨hfirst, hlast⟩ := hk
    rw [blockAt, length_take, length_drop]
    omega
  refine ⟨fun i j hi hj hij => ⟨same_duplication_iff hi hj hij, ?_⟩, duplications_disjoint, ?_, ?_, ?_⟩
  · exact join_inj (hline i) (hline j) ((hlength hi).trans (hlength hj).symm)
  · intro numbers hnumbers
    obtain ⟨block, -, rfl, htwo⟩ := mem_duplications.mp hnumbers
    exact ⟨htwo, numbersOf_pairwise block, fun k hk => (mem_numbersOf.mp hk).1⟩
  · rw [duplicationFindings, List.map_map]
    refine map_congr_left fun numbers hnumbers => ?_
    obtain ⟨-, -, -, htwo⟩ := mem_duplications.mp hnumbers
    cases numbers with
    | nil => cases htwo
    | cons first rest => rfl
  · intro m hm
    obtain ⟨tree, hreport⟩ := auditQuality_of_metrics hm
    rw [hreport] at hm ⊢
    refine ⟨?_, filter_plainFindings source tree⟩
    rw [← Option.some.inj hm, duplications_eq]
    rfl

end CodeAudit.Audit

import CodeAudit.Audit
import CodeAudit.Proofs.FloatBounds
import CodeAudit.Proofs.TreeGrammar

/-! What a security audit reports: the findings of every node, once and in preorder. -/

namespace CodeAudit.Syntax

open Node List

namespace Node

mutual

def decEq : ∀ n m : Node, Decidable (n = m)
  | .mk kind span children, .mk kind' span' children' =>
    have := decEqFields children children'
    decidable_of_iff (kind = kind' ∧ span = span' ∧ children = children') (by rw [mk.injEq])

def decEqFields : ∀ children children' : List (Field × Node), Decidable (children = children')
  | [], [] => isTrue rfl
  | [], _ :: _ => isFalse (cons_ne_nil _ _).symm
  | _ :: _, [] => isFalse (cons_ne_nil _ _)
  | (field, child) :: rest, (field', child') :: rest' =>
    have := decEq child child'
    have := decEqFields rest rest'
    decidable_of_iff ((field = field' ∧ child = child') ∧ rest = rest') (by rw [cons.injEq, Prod.mk.injEq])

end

instance : DecidableEq Node := decEq

def id? (n : Node) : Option String :=
  match n.kind with
  | .name id _ => some id
  | _ => none

def imported? (n : Node) : Option String :=
  match n.kind with
  | .alias name _ => some name
  | _ => none

variable {n : Node} {id : String}

theorem id?_eq_some_iff : n.id? = some id ↔ ∃ usage, n.kind = .name id usage := by
  unfold id?
  split <;> simp_all

theorem isWord_of_id? (h : n.follows) (hid : n.id? = some id) : isWord id := by
  obtain ⟨usage, hkind⟩ := id?_eq_some_iff.mp hid
  have hprovided := (follows_iff.mp h).1
  rwa [hkind] at hprovided

theorem follows_childIn? {child : Node} (h : n.follows) {f : Field} (hchild : n.childIn? f = some child) :
    child.follows := by
  have hmem : child ∈ n.childrenIn f := mem_of_mem_head? hchild
  exact follows_child h (mem_map.mpr ⟨_, mem_childrenIn.mp hmem, rfl⟩)

theorem fields_program (p : Program) : p.tree.fields = (p.tree.childrenIn .body).map fun m => (.body, m) := by
  have hbody : ∀ e ∈ p.tree.fields, e.1 = .body := by
    intro e he
    have hrole := ((follows_iff.mp p.follows).2 e he).1
    rw [p.isModule] at hrole
    simpa using congrArg Prod.fst (mem_singleton.mp hrole)
  have hkeep : ∀ e ∈ p.tree.fields,
      (if e.1 = .body then some e.2 else none).map (fun m => (Field.body, m)) = some e := by
    intro e he
    rw [hbody e he]
    exact congrArg some (Prod.ext (hbody e he).symm rfl)
  rw [childrenIn, map_filterMap]
  exact ((filterMap_congr hkeep).trans filterMap_some).symm

end Node

/-! Walks down fewer children. -/

namespace Walk

variable {w : Walk} {parent : Kind} {entries : List (Field × Node)}

theorem reachOfFields_le_iff {bound : Nat} : w.reachOfFields parent entries ≤ bound ↔
    ∀ e ∈ entries, w.enters parent e.1 → w.reach e.2 ≤ bound := by
  induction entries with
  | nil => simp [reachOfFields]
  | cons e rest ih =>
    rw [reachOfFields, forall_mem_cons, ← ih]
    by_cases henters : w.enters parent e.1
    · simp [henters]
    · simp [henters]

theorem reach_le_of_fewer {tree part : Node} (hkind : part.kind = tree.kind)
    (hfields : ∀ e ∈ part.fields, e ∈ tree.fields) : w.reach part ≤ w.reach tree := by
  obtain ⟨kind, span, children⟩ := tree
  obtain ⟨kind', span', children'⟩ := part
  obtain rfl : kind' = kind := hkind
  have hreach : w.reachOfFields kind' children' ≤ w.reachOfFields kind' children :=
    reachOfFields_le_iff.mpr fun e he => reachOfFields_le_iff.mp le_rfl e (hfields e he)
  rw [reach, reach]
  omega

end Walk

end CodeAudit.Syntax

namespace CodeAudit.Audit

open Syntax List Walk

/-! The findings of one node. -/

def calleeOf? (func : Node) : Option (Option String × String) :=
  match func.kind with
  | .name id _ => some (none, id)
  | .attribute attr _ => ((func.childIn? .value).bind Node.id?).map fun owner => (some owner, attr)
  | _ => none

def callDanger? : Option String × String → Option String
  | (none, "eval") => some "Évaluation dynamique de code"
  | (none, "exec") => some "Exécution dynamique de code"
  | (some "os", "system") => some "Appel système direct"
  | (some "subprocess", "run") => some "Exécution de processus"
  | _ => none

def shownCallee : Option String × String → String
  | (none, name) => name
  | (some owner, name) => owner ++ "." ++ name

def importDanger? : String → Option String
  | "subprocess" => some "Module d'exécution de processus"
  | "pickle" => some "Désérialisation non sécurisée"
  | "marshal" => some "Désérialisation non sécurisée"
  | _ => none

def SpeaksOfSecret (id : String) : Prop :=
  ∃ part ∈ ["password", "secret", "key", "token", "credential"], part.toList <:+: (lowerText id).toList

instance (id : String) : Decidable (SpeaksOfSecret id) :=
  inferInstanceAs (Decidable (∃ part ∈ ["password", "secret", "key", "token", "credential"], _))

variable (n : Node)

def toldOfCall : Option Finding := do
  let func ← n.childIn? .func
  let callee ← calleeOf? func
  let why ← callDanger? callee
  return ⟨"dangerous_call", "Utilisation dangereuse de " ++ shownCallee callee ++ ": " ++ why, 8, some n.line⟩

def toldOfAlias (n entry : Node) : Option Finding := do
  let name ← entry.imported?
  let why ← importDanger? name
  return ⟨"dangerous_import", "Import potentiellement dangereux: " ++ name ++ " - " ++ why, 6, some n.line⟩

def toldOfTarget (n target : Node) : Option Finding := do
  let id ← target.id?
  guard (SpeaksOfSecret id)
  return ⟨"hardcoded_secret", "Variable sensible " ++ id ++ " assignée en dur", 9, some n.line⟩

def toldOf : List Finding :=
  if n.kind = .call then (toldOfCall n).toList
  else if n.kind = .importStmt then (n.childrenIn .names).filterMap (toldOfAlias n)
  else if n.kind = .assign ∧ ∃ value ∈ n.childIn? .value, value.textConstant?.isSome then
    (n.childrenIn .targets).filterMap (toldOfTarget n)
  else []

variable {id : String}

theorem dot_notMem (h : isWord id) : '.' ∉ id.toList := by
  intro hdot
  have hcontinue : Lexer.mayContinue '.' := all_eq_true.mp h '.' hdot
  revert hcontinue
  decide

theorem shownCallee_inj {callee other : Option String × String} (h : '.' ∉ (callee.1.getD callee.2).toList)
    (hother : '.' ∉ (other.1.getD "" ++ other.2).toList) (heq : shownCallee callee = shownCallee other) :
    callee = other := by
  have hlists := congrArg String.toList heq
  obtain ⟨_ | owner, name⟩ := callee <;> obtain ⟨_ | owner', name'⟩ := other <;> simp [shownCallee] at h hother hlists
  · rw [String.toList_inj.mp hlists]
  · simp [hlists] at h
  · simp [← hlists] at hother
  · obtain ⟨howner, -, hname⟩ := (append_cons_inj_of_notMem hother.1 hother.2).mp hlists.symm
    rw [String.toList_inj.mp howner, String.toList_inj.mp hname]

variable {callee : Option String × String}

theorem lookup_dangerousCalls (h : '.' ∉ (callee.1.getD callee.2).toList) :
    dangerousCalls.lookup (shownCallee callee) = callDanger? callee := by
  have hne (other : Option String × String) (hother : '.' ∉ (other.1.getD "" ++ other.2).toList)
      (hne : callee = other → False) : shownCallee callee ≠ shownCallee other :=
    fun heq => hne (shownCallee_inj h hother heq)
  unfold callDanger?
  split
  case h_5 heval hexec hsystem hrun =>
    have heval : shownCallee callee ≠ "eval" := hne (none, _) (by decide) heval
    have hexec : shownCallee callee ≠ "exec" := hne (none, _) (by decide) hexec
    have hsystem : shownCallee callee ≠ "os.system" := hne (some _, _) (by decide) hsystem
    have hrun : shownCallee callee ≠ "subprocess.run" := hne (some _, _) (by decide) hrun
    simp [dangerousCalls, heval, hexec, hsystem, hrun]
  all_goals rfl

theorem lookup_dangerousImports (name : String) : dangerousImports.lookup name = importDanger? name := by
  unfold importDanger?
  split <;> simp_all [dangerousImports]
  · rfl
  · rfl

theorem isSensitive_iff : isSensitive id ↔ SpeaksOfSecret id := by
  simp only [isSensitive, any_eq_true, Text.occurs, Chars.occurs_iff, SpeaksOfSecret, sensitiveParts]

theorem calledName_eq (func : Node) : calledName func = ((calleeOf? func).map shownCallee).getD "" := by
  cases hkind : func.kind with
  | name id usage => simp only [calledName, calleeOf?, hkind, Option.map_some, shownCallee, Option.getD_some]
  | «attribute» attr usage =>
    simp only [calledName, calleeOf?, hkind]
    cases func.childIn? .value with
    | none => rfl
    | some value => cases hvalue : value.kind <;> simp [Node.id?, hvalue, shownCallee]
  | _ => simp only [calledName, calleeOf?, hkind, Option.map_none, Option.getD_none]

theorem calleeOf?_dotless {func : Node} (h : func.follows)
    (hcallee : calleeOf? func = some callee) : '.' ∉ (callee.1.getD callee.2).toList := by
  unfold calleeOf? at hcallee
  split at hcallee
  · rename_i id usage hkind
    obtain rfl := Option.some.inj hcallee
    exact dot_notMem (Node.isWord_of_id? h (Node.id?_eq_some_iff.mpr ⟨usage, hkind⟩))
  · obtain ⟨owner, howner, rfl⟩ := Option.map_eq_some_iff.mp hcallee
    obtain ⟨value, hvalue, hid⟩ := Option.bind_eq_some_iff.mp howner
    exact dot_notMem (Node.isWord_of_id? (Node.follows_childIn? h hvalue) hid)
  · cases hcallee

theorem callFindings_eq {n : Node} (h : n.follows) : callFindings n = (toldOfCall n).toList := by
  unfold callFindings toldOfCall
  cases hfunc : n.childIn? .func with
  | none => rfl
  | some func =>
    simp only [Option.map_some, calledName_eq, Option.bind_eq_bind, Option.bind_some]
    cases hcallee : calleeOf? func with
    | none => rfl
    | some callee =>
      have hlookup := lookup_dangerousCalls (calleeOf?_dotless (Node.follows_childIn? h hfunc) hcallee)
      simp only [Option.map_some, Option.getD_some, hlookup, Option.bind_some]
      cases callDanger? callee <;> rfl

theorem importFindings_eq : importFindings n = (n.childrenIn .names).filterMap (toldOfAlias n) := by
  apply filterMap_congr
  intro entry _
  cases hkind : entry.kind with
  | «alias» name asname =>
    simp only [toldOfAlias, Node.imported?, hkind, lookup_dangerousImports, Option.bind_eq_bind, Option.bind_some]
    cases importDanger? name <;> rfl
  | _ => simp [toldOfAlias, Node.imported?, hkind]

theorem assignmentFindings_eq : assignmentFindings n =
    if ∃ value ∈ n.childIn? .value, value.textConstant?.isSome then (n.childrenIn .targets).filterMap (toldOfTarget n)
    else [] := by
  have hvalue : ((n.childIn? .value).bind Node.textConstant?).isSome ↔
      ∃ value ∈ n.childIn? .value, value.textConstant?.isSome := by
    cases n.childIn? .value <;> simp
  simp only [assignmentFindings, hvalue]
  congr 1
  apply filterMap_congr
  intro target _
  cases hkind : target.kind with
  | name id usage =>
    simp only [toldOfTarget, Node.id?, hkind, isSensitive_iff]
    by_cases hsecret : SpeaksOfSecret id
    · simp [hsecret]
    · simp [hsecret]
  | _ => simp [toldOfTarget, Node.id?, hkind]

theorem ownFindings_eq {n : Node} (h : n.follows) : ownFindings n = toldOf n := by
  unfold ownFindings toldOf
  split
  · rename_i hkind
    rw [if_pos hkind, callFindings_eq h]
  · rename_i hkind
    rw [if_neg (by simp [hkind]), if_pos hkind, importFindings_eq]
  · rename_i hkind
    rw [if_neg (by simp [hkind]), if_neg (by simp [hkind]), assignmentFindings_eq]
    simp only [hkind, true_and]
  · rename_i hcall himport hassign
    rw [if_neg hcall, if_neg himport, if_neg (fun h => hassign h.1)]

/-! The findings of a tree. -/

mutual

theorem scan_eq_preorder : ∀ n : Node, scan n = n.preorder.flatMap ownFindings
  | .mk kind span children => by rw [scan, Node.preorder, flatMap_cons, scanFields_eq_preorder]

theorem scanFields_eq_preorder : ∀ children : List (Field × Node),
    scanFields children = (Node.preorderFields children).flatMap ownFindings
  | [] => rfl
  | (field, child) :: rest => by
    rw [scanFields, Node.preorderFields, flatMap_append, scan_eq_preorder, scanFields_eq_preorder]

end

theorem scan_in_preorder {tree : Node} (h : tree.follows) : ∃ positions, tree.InPreorder positions ∧
      scan tree = positions.flatMap fun p => ((tree.at? p).map toldOf).getD [] := by
  obtain ⟨positions, hpositions, hnodes⟩ := tree.exists_inPreorder
  have htold : ∀ n ∈ tree.preorder, ownFindings n = toldOf n := by
    intro n hn
    obtain ⟨p, hat⟩ := Node.mem_preorder_iff.mp hn
    exact ownFindings_eq (Node.follows_at? h hat)
  refine ⟨positions, hpositions, ?_⟩
  calc scan tree
      = tree.preorder.flatMap toldOf := by rw [scan_eq_preorder, flatMap_congr htold]
    _ = (tree.preorder.map some).flatMap fun n => (n.map toldOf).getD [] := by rw [flatMap_map]; rfl
    _ = positions.flatMap fun p => ((tree.at? p).map toldOf).getD [] := by rw [← hnodes, flatMap_map]

theorem scanFields_eq_flatMap (children : List (Field × Node)) :
    scanFields children = (children.map Prod.snd).flatMap scan := by
  induction children with
  | nil => rfl
  | cons e rest ih => rw [scanFields, ih, map_cons, flatMap_cons]

theorem scan_program (p : Program) : scan p.tree = (p.tree.childrenIn .body).flatMap scan := by
  have hfields := Node.fields_program p
  have hkind := p.isModule
  generalize p.tree = tree at hfields hkind ⊢
  obtain ⟨kind, span, children⟩ := tree
  obtain rfl : kind = .module := hkind
  rw [scan, scanFields_eq_flatMap]
  change children = _ at hfields
  have hchildren : children.map Prod.snd = (Node.mk .module span children).childrenIn .body := by
    conv_lhs => rw [hfields, map_map]
    exact map_id _
  rw [hchildren]
  rfl

theorem hasValue_one : HasValue 1.0 1 := by
  have hone : (1.0 : Float) = ⟨Float.Model.pack (.finite .positive (2 ^ 52) (-52) (by norm_num))⟩ := by decide
  exact .pack stands_one ((RoundsTo.refl 1).small (by norm_num))

theorem onGrid_one_half : OnGrid (1 / 2) := by simpa using @onGrid_half 1 (by norm_num)

theorem onGrid_one : OnGrid 1 := by simpa using @onGrid_natCast 1 (by norm_num)

theorem hasValue_severity {f : Finding} (hleast : 5 ≤ f.tenths) (hmost : f.tenths ≤ 10) :
    ∃ s, HasValue f.severity s ∧ 1 / 2 ≤ s ∧ s ≤ 1 := by
  obtain ⟨s, hs, hround⟩ := hasValue_tenths (Nat.zero_lt_of_lt hleast) (by omega)
  have hlow : (5 : ℚ) ≤ f.tenths := by exact_mod_cast hleast
  have hhigh : (f.tenths : ℚ) ≤ 10 := by exact_mod_cast hmost
  exact ⟨s, hs, hround.below _ onGrid_one_half (by linarith), hround.above _ onGrid_one (by linarith)⟩

def Weighty (findings : List Finding) : Prop := ∀ f ∈ findings, 5 ≤ f.tenths ∧ f.tenths ≤ 10

variable {findings : List Finding}

theorem hasValue_total (hweights : Weighty findings) {count : Nat} {sum : Float} {a : ℚ}
    (hsum : HasValue sum a) (hlow : (count : ℚ) / 2 ≤ a) (hhigh : a ≤ count)
    (hcount : count + findings.length < 2 ^ 53) :
    ∃ b, HasValue (findings.foldl (fun sum f => sum + f.severity) sum) b ∧
      ((count + findings.length : Nat) : ℚ) / 2 ≤ b ∧ b ≤ (count + findings.length : Nat) := by
  induction findings generalizing count sum a with
  | nil => exact ⟨a, hsum, hlow, hhigh⟩
  | cons f rest ih =>
    obtain ⟨⟨hleast, hmost⟩, hrest⟩ := forall_mem_cons.mp hweights
    rw [length_cons] at hcount
    obtain ⟨s, hs, hslow, hshigh⟩ := hasValue_severity hleast hmost
    have hfits : ((count + 1 : Nat) : ℚ) ≤ 2 ^ 53 := by exact_mod_cast (by omega : count + 1 ≤ 2 ^ 53)
    have hsucc : ((count + 1 : Nat) : ℚ) = count + 1 := by norm_num
    obtain ⟨r, hr, hround⟩ := hsum.add hs (by linarith)
    -- both bounds are floating-point numbers, so rounding does not step over them
    have hrlow : ((count + 1 : Nat) : ℚ) / 2 ≤ r := hround.below _ (onGrid_half (by omega)) (by linarith)
    have hrhigh : r ≤ (count + 1 : Nat) := hround.above _ (onGrid_natCast (by omega)) (by linarith)
    obtain ⟨b, hb, hblow, hbhigh⟩ := ih hrest hr hrlow hrhigh (by omega)
    rw [length_cons, show count + (rest.length + 1) = count + 1 + rest.length by omega]
    exact ⟨b, hb, hblow, hbhigh⟩

theorem baseScore_le_half (hweights : Weighty findings) (hne : findings ≠ [])
    (hcount : findings.length < 2 ^ 53) : ∃ r, HasValue (baseScore findings) r ∧ r ≤ 1 / 2 := by
  have hpos : 0 < findings.length := length_pos_iff.mpr hne
  have hpos' : (0 : ℚ) < findings.length := by exact_mod_cast hpos
  have hstart : ((0 : Nat) : ℚ) / 2 ≤ 0 := by norm_num
  obtain ⟨total, htotal, hlow, hhigh⟩ := hasValue_total hweights hasValue_zero hstart (by norm_num) (by omega)
  rw [Nat.zero_add] at hlow hhigh
  have hleast : 1 / 2 ≤ total / findings.length := by
    rw [le_div_iff₀ hpos']
    linarith
  have hmost : total / findings.length ≤ 1 := by
    rw [div_le_iff₀ hpos']
    linarith
  obtain ⟨mean, hmean, hround⟩ := htotal.div (hasValue_ofNat hpos hcount) hpos' (by linarith)
  have hmeanLow : 1 / 2 ≤ mean := hround.below _ onGrid_one_half hleast
  have hmeanHigh : mean ≤ 1 := hround.above _ onGrid_one hmost
  obtain ⟨score, hscore, hround⟩ := hasValue_one.sub hmean (by linarith) hmeanHigh (by norm_num)
  have hscoreHigh : score ≤ 1 / 2 := hround.above _ onGrid_one_half (by linarith)
  unfold baseScore
  extract_lets sum difference
  split
  · exact ⟨score, hscore, hscoreHigh⟩
  · exact ⟨0, hasValue_zero, by norm_num⟩

theorem securityScore_eq_one_iff (hweights : Weighty findings) (hcount : findings.length < 2 ^ 53) :
    securityScore findings = 1.0 ↔ findings = [] := by
  constructor
  · intro hscore
    by_contra hne
    obtain ⟨r, hr, hle⟩ := baseScore_le_half hweights hne hcount
    rw [securityScore, if_neg (by simpa using hne)] at hscore
    exact floatRound_ne_one hr hle hscore
  · rintro rfl
    rfl

theorem weighty_ownFindings : Weighty (ownFindings n) := by
  intro f hf
  unfold ownFindings at hf
  split at hf
  · unfold callFindings at hf
    dsimp only at hf
    split at hf
    · simp [mem_singleton.mp hf]
    · cases hf
  · obtain ⟨entry, -, hentry⟩ := mem_filterMap.mp hf
    split at hentry
    · obtain ⟨why, -, rfl⟩ := Option.map_eq_some_iff.mp hentry
      simp
    · cases hentry
  · unfold assignmentFindings at hf
    split at hf
    · obtain ⟨target, -, htarget⟩ := mem_filterMap.mp hf
      split at htarget
      · obtain ⟨-, hfinding⟩ := Option.ite_none_right_eq_some.mp htarget
        simp [← Option.some.inj hfinding]
      · cases htarget
    · cases hf
  · cases hf

theorem weighty_scan (tree : Node) : Weighty (scan tree) := by
  intro f hf
  rw [scan_eq_preorder] at hf
  obtain ⟨n, -, hn⟩ := mem_flatMap.mp hf
  exact weighty_ownFindings n f hn

/-! Audits of source texts. -/

section

variable {i : Interpreter} {source : String} {p : Program}

theorem auditSecurity_of_admits (h : scanWalk.Admits i source p) (hparse : i.parse? source = some p) :
    auditSecurity i source = ⟨scan p.tree, securityScore (scan p.tree)⟩ := by
  rw [auditSecurity, auditable, h.read hparse pure]
  rfl

theorem auditSecurity_of_not_admits (h : ¬ scanWalk.Admits i source p) (hparse : i.parse? source = some p) :
    auditSecurity i source = ⟨[], 0.0⟩ := by
  obtain ⟨f, hf, hdeep⟩ := read_too_deep hparse pure h
  rw [auditSecurity, auditable, hdeep]
  cases f <;> first | rfl | exact absurd rfl hf

theorem auditSecurity_of_part {text : String} {part : Program} (h : scanWalk.Admits i source p)
    (hpart : i.parse? text = some part) (haccepted : i.refusal text part = none)
    (hbody : ∀ n ∈ part.tree.childrenIn .body, n ∈ p.tree.childrenIn .body) :
    (auditSecurity i text).findings = (part.tree.childrenIn .body).flatMap scan := by
  have hreach : scanWalk.reach part.tree ≤ scanWalk.reach p.tree := by
    refine Walk.reach_le_of_fewer (part.isModule.trans p.isModule.symm) ?_
    intro e he
    rw [Node.fields_program] at he
    obtain ⟨n, hn, rfl⟩ := mem_map.mp he
    exact Node.mem_childrenIn.mp (hbody n hn)
  have hadmits : scanWalk.Admits i text part := ⟨haccepted, by have hcalls := h.calls; omega⟩
  rw [auditSecurity_of_admits hadmits hpart, scan_program]

/-- The security audit of a program reports what is told of the nodes of its tree, once and in
preorder; so it reports of two bodies what it reports of each; and its score is one exactly if there
is nothing to report, as long as the findings can be counted in a floating number. Without room for
the walk there is nothing to report and the score is zero. -/
theorem security_audit_in_preorder (hparse : i.parse? source = some p) :
    (scanWalk.Admits i source p →
      (∃ positions, p.tree.InPreorder positions ∧
        (auditSecurity i source).findings =
          positions.flatMap fun path => ((p.tree.at? path).map toldOf).getD []) ∧
      (∀ first second upper lower, i.read first = .ok upper → i.read second = .ok lower →
        p.tree.childrenIn .body = upper.tree.childrenIn .body ++ lower.tree.childrenIn .body →
        (auditSecurity i source).findings =
          (auditSecurity i first).findings ++ (auditSecurity i second).findings) ∧
      ((auditSecurity i source).findings.length < 2 ^ 53 →
        ((auditSecurity i source).score = 1.0 ↔ (auditSecurity i source).findings = []))) ∧
    (¬ scanWalk.Admits i source p → (auditSecurity i source).findings = [] ∧
      (auditSecurity i source).score = 0.0) := by
  refine ⟨fun hadmits => ⟨?_, ?_, ?_⟩, ?_⟩
  · rw [auditSecurity_of_admits hadmits hparse]
    exact scan_in_preorder p.follows
  · intro first second upper lower hupper hlower hbody
    obtain ⟨hupper, hreads⟩ := i.read_eq_ok_iff.mp hupper
    obtain ⟨hlower, hreads'⟩ := i.read_eq_ok_iff.mp hlower
    have hfirst := auditSecurity_of_part hadmits hupper hreads fun n hn => hbody ▸ List.mem_append_left _ hn
    have hsecond := auditSecurity_of_part hadmits hlower hreads' fun n hn => hbody ▸ List.mem_append_right _ hn
    rw [hfirst, hsecond, auditSecurity_of_admits hadmits hparse, scan_program, hbody, List.flatMap_append]
  · rw [auditSecurity_of_admits hadmits hparse]
    exact securityScore_eq_one_iff (weighty_scan p.tree)
  · intro hdeep
    rw [auditSecurity_of_not_admits hdeep hparse]
    exact ⟨rfl, rfl⟩

end

def nestedLines : List String :=
  ["import os, pickle", "@exec('1')", "def f(a):", "    key = [os.system(eval(b)) for b in a]",
    "    user = API_KEY = 'x'"]

def lastLines : List String := ["Password = 's'", "eval.exec(os.run)"]

def textOf (lines : List String) : Chars := lines.flatMap fun line => line.toList ++ ['\n']

def wholeText : String := String.ofList (textOf (nestedLines ++ lastLines))

def upperText : String := String.ofList (textOf nestedLines)

-- the blank lines keep the places of the second part
def lowerText : String := String.ofList (replicate 5 '\n' ++ textOf lastLines)

theorem scan_wholeText : (parseChars? (textOf (nestedLines ++ lastLines))).map (fun p =>
      (decide (scanWalk.Admits .standard wholeText p), (scan p.tree).map Finding.line)) =
      some (true, [some 1, some 4, some 4, some 5, some 2, some 6]) := by
  decide +kernel

theorem body_wholeText :
    (parseChars? (textOf (nestedLines ++ lastLines))).map (fun p => p.tree.childrenIn .body) =
      (parseChars? (textOf nestedLines)).bind fun upper =>
        (parseChars? (replicate 5 '\n' ++ textOf lastLines)).bind fun lower =>
          if Interpreter.standard.refusal upperText upper = none ∧
            Interpreter.standard.refusal lowerText lower = none then
            some (upper.tree.childrenIn .body ++ lower.tree.childrenIn .body)
          else none := by
  decide +kernel

theorem security_audit_in_preorder_nested :
    ∃ p, Interpreter.standard.parse? wholeText = some p ∧ scanWalk.Admits .standard wholeText p ∧
      (auditSecurity .standard wholeText).findings.map Finding.line =
        [some 1, some 4, some 4, some 5, some 2, some 6] ∧
      (auditSecurity .standard wholeText).findings =
        (auditSecurity .standard upperText).findings ++
          (auditSecurity .standard lowerText).findings ∧
      (auditSecurity .standard wholeText).score ≠ 1.0 := by
  obtain ⟨p, hchars, hvalues⟩ := Option.map_eq_some_iff.mp scan_wholeText
  simp only [Prod.mk.injEq, decide_eq_true_eq] at hvalues
  obtain ⟨hadmits, hscan⟩ := hvalues
  have hparse : Interpreter.standard.parse? wholeText = some p := (parse?_ofList _).trans hchars
  have hbody := body_wholeText
  rw [hchars, Option.map_some] at hbody
  obtain ⟨upper, hupper, hbody⟩ := Option.bind_eq_some_iff.mp hbody.symm
  obtain ⟨lower, hlower, hbody⟩ := Option.bind_eq_some_iff.mp hbody
  obtain ⟨⟨hfirst, hsecond⟩, hbody⟩ := Option.ite_none_right_eq_some.mp hbody
  obtain ⟨-, hparts, hscore⟩ := (security_audit_in_preorder hparse).1 hadmits
  have hfindings : (auditSecurity .standard wholeText).findings = scan p.tree := by
    rw [auditSecurity_of_admits hadmits hparse]
  have hcount : (scan p.tree).length = 6 := by simpa using congrArg List.length hscan
  refine ⟨p, hparse, hadmits, ?_, hparts _ _ upper lower ?_ ?_ (Option.some.inj hbody).symm, ?_⟩
  · rw [hfindings, hscan]
  · exact Interpreter.read_of_accepted ((parse?_ofList _).trans hupper) hfirst
  · exact Interpreter.read_of_accepted ((parse?_ofList _).trans hlower) hsecond
  · intro hone
    have hnone := (hscore (by rw [hfindings, hcount]; norm_num)).mp hone
    rw [hfindings] at hnone
    rw [hnone] at hcount
    cases hcount

/-! Trees that are too deep. -/

mutual

theorem height_le_reach : ∀ n : Node, n.height + 2 ≤ scanWalk.reach n
  | .mk kind span children => by
    have hbelow := heightOfFields_le_reach kind children
    have hcalls : scanWalk.calls kind = 1 := rfl
    have hlisting : scanWalk.listing = 2 := rfl
    have hown : 2 ≤ if kind.isMarked then max scanWalk.listing scanWalk.mark else scanWalk.listing := by
      split <;> simp [hlisting]
    rw [Node.height, reach]
    omega

theorem heightOfFields_le_reach (parent : Kind) : ∀ children : List (Field × Node),
    Node.heightOfFields children + 2 ≤ max 2 (scanWalk.reachOfFields parent children)
  | [] => by simp [Node.heightOfFields]
  | (field, child) :: rest => by
    have hfirst := height_le_reach child
    have hrest := heightOfFields_le_reach parent rest
    have henters : scanWalk.enters parent field := rfl
    rw [Node.heightOfFields, reachOfFields, if_pos henters]
    omega

end

def deepCall (count : Nat) : Chars := "eval(".toList ++ (replicate count "not ".toList).flatten ++ "1)".toList

theorem toldOf_deepCall : (parseChars? (deepCall 1000)).map (fun p => (decide (992 < p.tree.height),
      (p.tree.at? [0, 0]).map fun n => (toldOf n).isEmpty)) = some (true, some false) := by
  decide +kernel

/-- A tree that is too deep hides what there is to report. -/
theorem security_audit_blind : ∃ i source p, Interpreter.parse? i source = some p ∧
      (∃ path n, p.tree.at? path = some n ∧ toldOf n ≠ []) ∧
      (auditSecurity i source).findings = [] ∧ (auditSecurity i source).score ≠ 1.0 := by
  obtain ⟨p, hchars, hvalues⟩ := Option.map_eq_some_iff.mp toldOf_deepCall
  simp only [Prod.mk.injEq, decide_eq_true_eq] at hvalues
  obtain ⟨hheight, hat⟩ := hvalues
  obtain ⟨n, hat, htold⟩ := Option.map_eq_some_iff.mp hat
  have hparse : Interpreter.standard.parse? _ = some p := (parse?_ofList _).trans hchars
  have hdeep : ¬ scanWalk.Admits .standard (String.ofList (deepCall 1000)) p := by
    intro hadmits
    have hcalls : 6 + scanWalk.reach p.tree ≤ 1000 := hadmits.calls
    have hreach := height_le_reach p.tree
    omega
  refine ⟨_, _, p, hparse, ⟨_, n, hat, by simpa using htold⟩, ?_⟩
  rw [auditSecurity_of_not_admits hdeep hparse]
  exact ⟨rfl, by decide⟩

end CodeAudit.Audit

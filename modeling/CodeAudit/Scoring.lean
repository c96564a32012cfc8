import CodeAudit.Data.Value

/-! The security score of a code base: a weighted mean of three scores from 0 to 100, over any kind
of number. `decay` stands for `exp (-x)`. -/

namespace CodeAudit.Scoring

structure Measures (α : Type) where
  counts : List (String × α)
  complexity : α
  maxComplexity : α
  coverage : Option α
  smells : Option α

structure Score (α : Type) where
  total : α
  security : α
  quality : α
  maintainability : α

section

variable {α : Type} [Add α] [Sub α] [Mul α] [Div α] [OfScientific α] [LT α] [DecidableLT α]

def weight? (severity : String) : Option α :=
  match severity with
  | "critical" => some 10.0
  | "high" => some 7.5
  | "medium" => some 5.0
  | "low" => some 2.5
  | _ => none

def totalWeight : α := 25.0

def nonnegative (x : α) : α := if 0.0 < x then x else 0.0

variable (decay : α → α)

def severityPenalty (severity : String) (count : α) : Option α :=
  if 0.0 < count then (weight? severity).map fun w => w * (1.0 - decay (0.1 * count)) else none

variable (counts : List (String × α))

def penalty : α :=
  counts.foldl (fun sum (severity, count) =>
    match severityPenalty decay severity count with
    | some p => sum + p
    | none => sum) 0.0

def securityScore : α := nonnegative (100.0 - penalty decay counts / totalWeight * 100.0)

def qualityScore (complexity maxComplexity : α) (smells : Option α) : α :=
  let load := complexity / maxComplexity
  let load := if load < 1.0 then load else 1.0
  let smellPenalty := match smells with
    | some n => 40.0 * (1.0 - decay (0.05 * n))
    | none => 0.0
  nonnegative (100.0 - 60.0 * load - smellPenalty)

def maintainabilityScore (complexity : α) (coverage : Option α) : α :=
  let simplicity := 50.0 * decay (0.1 * complexity)
  let covered := match coverage with
    | some c => 50.0 * (c / 100.0)
    | none => 0.0
  if simplicity + covered < 100.0 then simplicity + covered else 100.0

variable (m : Measures α)

def score : Score α :=
  let security := securityScore decay m.counts
  let quality := qualityScore decay m.complexity m.maxComplexity m.smells
  let maintainability := maintainabilityScore decay m.complexity m.coverage
  { total := 0.4 * security + 0.3 * quality + 0.3 * maintainability
    security, quality, maintainability }

def Measures.count (severity : String) : α := (m.counts.lookup severity).getD 0.0

def recommendations : List String :=
  (if 0.0 < m.count "critical" then ["⚠️ Corriger immédiatement les vulnérabilités critiques"] else []) ++
  (if 0.0 < m.count "high" then ["🔴 Résoudre les vulnérabilités de haute sévérité"] else []) ++
  (if 2.0 < m.count "medium" then ["🟡 Réduire le nombre de vulnérabilités de moyenne sévérité"]
    else []) ++
  (if m.maxComplexity < m.complexity then ["📊 Réduire la complexité cyclomatique du code"] else []) ++
  (match m.coverage with
    | some c => if c < 80.0 then ["🧪 Augmenter la couverture des tests (objectif: 80%)"] else []
    | none => []) ++
  (match m.smells with
    | some n => if 10.0 < n then ["🔍 Réduire le nombre de code smells"] else []
    | none => [])

end

/-! Scores of measures given as plain values, with the report that shows them, and the grades of
scores. -/

structure Submission where
  severityCounts : Value
  complexity : Value
  maxComplexity : Value
  coverage : Value
  smells : Value

structure Report where
  submission : Submission
  score : Score Float
  advice : List String

def decay (x : Float) : Float := Float.exp (-x)

def number (sign : String) (v : Value) : Outcome Float :=
  match v.number? with
  | some n => n.toFloat
  | none => .error (Value.unsupported sign (.float 0) v)

def decaying (factor : Float) (v : Value) : Outcome Float := do
  let x ← number "*" v
  if x.isFinite && (decay (factor * x)).isInf then throw (.overflow "math range error")
  return x

def optional (read : Value → Outcome Float) : Value → Outcome (Option Float)
  | .null => .ok none
  | v => (read v).map some

def readCounts (v : Value) : Outcome (List (String × Float)) := do
  let entries ← v.entries
  entries.mapM fun (severity, count) => do
    let positive ← count.greater (.int 0)
    if positive then
      match (weight? severity : Option Float) with
      | some _ => return (severity, ← number "*" count)
      | none => return (severity, 1.0)
    else return (severity, 0.0)

def saturated (n : Num) : Float :=
  match n.toFloat with
  | .ok x => x
  | .error _ => if Num.lt (.int 0) n then 1.0 / 0.0 else -1.0 / 0.0

variable (s : Submission)

def readLoad : Outcome (Float × Float) := do
  match s.complexity.number?, s.maxComplexity.number? with
  | some c, some m =>
    let _ ← c.div m
    return (← c.toFloat, saturated m)
  | _, _ => throw (Value.unsupported "/" s.complexity s.maxComplexity)

def Submission.measures : Outcome (Measures Float) := do
  let counts ← readCounts s.severityCounts
  let (complexity, maxComplexity) ← readLoad s
  let smells ← optional (decaying 0.05) s.smells
  let complexity ← (decaying 0.1 (.float complexity))
  let coverage ← optional (number "/") s.coverage
  return { counts, complexity, maxComplexity, coverage, smells }

def assess : Outcome Report := do
  let m ← s.measures
  return { submission := s, score := score decay m, advice := recommendations m }

def Report.toValue (r : Report) : Value :=
  .object [
    ("total_score", .float r.score.total),
    ("security_score", .float r.score.security),
    ("quality_score", .float r.score.quality),
    ("maintainability_score", .float r.score.maintainability),
    ("details", .object [
      ("severity_counts", r.submission.severityCounts),
      ("complexity_score", r.submission.complexity),
      ("test_coverage", r.submission.coverage),
      ("code_smells", r.submission.smells),
      ("scores", .object [
        ("security", .float r.score.security),
        ("quality", .float r.score.quality),
        ("maintainability", .float r.score.maintainability)])]),
    ("recommendations", Value.texts r.advice)]

def grades : List (Int × String) := [
  (95, "A+"), (90, "A"), (85, "A-"), (80, "B+"), (75, "B"), (70, "B-"), (65, "C+"), (60, "C"),
  (55, "C-"), (50, "D+"), (45, "D"), (40, "D-")]

def grade (score : Num) : String :=
  match grades.find? fun (bound, _) => Num.le (.int bound) score with
  | some (_, name) => name
  | none => "F"

inductive Trend where
  | stable | increasing | decreasing

def Trend.word : Trend → String
  | .stable => "stable"
  | .increasing => "increasing"
  | .decreasing => "decreasing"

def exactValue? : Num → Option Rat
  | .int n => some n
  | .float x => (Dyadic.ofFloat? x).map fun d =>
    let (num, den) := d.ratio
    let r := (num : Rat) / (den : Rat)
    if d.negative then -r else r

def nearest (whole : Bool) (r : Rat) : Outcome Num :=
  let x := nearestFloat (r.num < 0) r.num.natAbs r.den
  if whole && r.den == 1 then .ok (.int r.num)
  else if x.isInf then .error (.overflow "integer division result too large for a float")
  else .ok (.float x)

def mean (values : List Value) : Outcome Num := do
  if values.isEmpty then throw (.noData "mean requires at least one data point")
  let nums ← values.mapM fun v =>
    match v.number? with
    | some n => .ok n
    | none => .error (.wrongType ("can't convert type '" ++ v.kind ++ "' to numerator/denominator"))
  let whole := nums.all fun n => match n with
    | .int _ => true
    | .float _ => false
  match nums.mapM exactValue? with
  | some rs => nearest whole (rs.foldl (· + ·) 0 / (rs.length : Rat))
  | none =>
    let special := nums.filterMap fun n => match n with
      | .float x => if (Dyadic.ofFloat? x).isNone then some x else none
      | .int _ => none
    return .float (special.foldl (· + ·) 0)

def thirds (n : Nat) : Nat × Nat := (n / 3, (n + 2) / 3)

/-- A series of fewer than two values is stable; so is one whose means differ by less than a tenth
of the first. -/
def trend (values : List Value) : Outcome Trend := do
  if values.length < 2 then return .stable
  let (first, last) := thirds values.length
  let start ← mean (values.take first)
  let stop ← mean (values.drop (values.length - last))
  let diff ← Num.sub stop start
  let tolerance ← Num.mul (.float 0.1) start
  if Num.lt diff.abs tolerance then return .stable
  else if Num.lt (.int 0) diff then return .increasing
  else return .decreasing

/-- The health of a system. It takes figures of errors and of caching to say, which are not kept. -/
def health (_ : Value) : Value := .object []

end CodeAudit.Scoring

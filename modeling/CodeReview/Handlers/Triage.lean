import CodeReview.Handlers.Common
import Mathlib.Data.List.Infix

/-!
# Risk triage

`handle_risk_tier_triage` buckets a diff by its size and by the risk signals in its paths and in the
project profile.

* `detectRiskSignals_eq_nil_iff` : there is no signal exactly when no path is risky and the profile
  lists no infrastructure;
* `triageTier_of_scan` : on a scan output that meets its schema the tier is that of `bucket`;
* `handleRiskTierTriage_ok_iff` : only an override of the cap by a value without an `int` raises;
* `triage_inRange_iff` : **the triage returns, with a cap in its range, exactly when the override is
  none that `float()` reads as infinite or cannot hold.**
-/

namespace CodeReview

open Py

variable (rt : Runtime)

/-! ### Path patterns -/

/-- A piece of a path pattern. -/
inductive PathPiece where
  | lit (c : Char)
  /-- `c?`. -/
  | optional (c : Char)
  /-- `$`, which also holds before a final newline. -/
  | textEnd
  /-- `($|\.|/)`. -/
  | nameEnd
  deriving DecidableEq, Repr

/-- A text, character by character. -/
def lits (s : String) : List PathPiece := s.toList.map .lit

/-- A regular expression of `_HIGH_RISK_PATTERNS` with its source; an `atSegment` one begins with
`(^|/)`. -/
structure PathPattern where
  source : String
  atSegment : Bool
  pieces : List PathPiece

/-- A match of the pieces that begins here. -/
def matchHere : List PathPiece → List Char → Bool
  | [], _ => true
  | .lit c :: pieces, cs =>
    match cs with
    | c' :: cs => c = c' && matchHere pieces cs
    | [] => false
  | .optional c :: pieces, cs =>
    matchHere pieces cs ||
      match cs with
      | c' :: cs => c = c' && matchHere pieces cs
      | [] => false
  | .textEnd :: pieces, cs => (cs = [] || cs = ['\n']) && matchHere pieces cs
  | .nameEnd :: pieces, cs =>
    ((cs = [] || cs = ['\n']) && matchHere pieces cs) ||
      match cs with
      | c' :: cs => (c' = '.' || c' = '/') && matchHere pieces cs
      | [] => false

/-- `pattern.search(path)`. -/
def PathPattern.search (p : PathPattern) (path : String) : Bool :=
  if p.atSegment then
    matchHere p.pieces path.toList ||
      path.toList.tails.any fun
        | '/' :: cs => matchHere p.pieces cs
        | _ => false
  else path.toList.tails.any (matchHere p.pieces)

/-- `_HIGH_RISK_PATTERNS`. -/
def highRiskPatterns : List PathPattern :=
  [⟨"(^|/)Dockerfile($|\\.|/)", true, lits "Dockerfile" ++ [.nameEnd]⟩,
    ⟨"\\.tf$", false, lits ".tf" ++ [.textEnd]⟩,
    ⟨"(^|/)k8s/", true, lits "k8s/"⟩,
    ⟨"(^|/)kubernetes/", true, lits "kubernetes/"⟩,
    ⟨"(^|/)helm/", true, lits "helm/"⟩,
    ⟨"\\.cdk\\.ts$", false, lits ".cdk.ts" ++ [.textEnd]⟩,
    ⟨"(^|/)serverless\\.ya?ml$", true,
      lits "serverless.y" ++ .optional 'a' :: lits "ml" ++ [.textEnd]⟩,
    ⟨"(^|/)Pulumi\\.ya?ml$", true, lits "Pulumi.y" ++ .optional 'a' :: lits "ml" ++ [.textEnd]⟩,
    ⟨"(^|/)\\.github/workflows/", true, lits ".github/workflows/"⟩,
    ⟨"(^|/)\\.gitlab-ci\\.ya?ml$", true,
      lits ".gitlab-ci.y" ++ .optional 'a' :: lits "ml" ++ [.textEnd]⟩,
    ⟨"(^|/)migrations/", true, lits "migrations/"⟩,
    ⟨"(^|/)prisma/migrations/", true, lits "prisma/migrations/"⟩,
    ⟨"(^|/)alembic/", true, lits "alembic/"⟩,
    ⟨"(^|/)flyway/", true, lits "flyway/"⟩,
    ⟨"(^|/)atlas/", true, lits "atlas/"⟩]

example : highRiskPatterns.map (·.search "ops/serverless.yml") =
    [false, false, false, false, false, false, true, false, false, false, false, false, false,
      false, false] := by decide
example : highRiskPatterns.any (·.search "src/helmet.tfx") = false := by decide

/-! ### Signals -/

/-- `_RISK_KEYWORDS`. -/
def riskKeywords : List String :=
  ["auth", "crypto", "secret", "password", "token", "infra", "deploy", "migration", "migrate",
    "iam", "rbac", "oauth", "jwt", "session", "key", "tls", "ssl", "cert", "kms", "vault"]

/-- `_SCOPE_OVERRIDE_KEYS`. -/
def scopeOverrideKeys : List String :=
  ["scope-dir", "scope-lang", "scope-framework", "scope-reviewer", "scope-severity", "scope-gate"]

/-- The signals of one path: every keyword in it, and the first pattern that matches. -/
def pathSignals (path : String) : List String :=
  (riskKeywords.filter (Text.contains (rt.lower path))).map ("keyword:" ++ ·) ++
    ((highRiskPatterns.find? (·.search path)).map fun p => "path:" ++ p.source).toList

/-- `_detect_risk_signals`. -/
def detectRiskSignals (changed : List String) (profile : Dict) : List String :=
  sortedSet (changed.flatMap (pathSignals rt) ++
    if ensureList (profile.get "iac") = [] then [] else ["profile:iac-present"])

/-- `_detect_scope_overrides`. -/
def detectScopeOverrides (args : Dict) : Bool :=
  scopeOverrideKeys.any fun key => !(args.get key).isNone

/-! ### Tiers -/

/-- `RiskTier`. -/
inductive RiskTier where
  | trivial
  | lite
  | full
  | sensitive
  deriving DecidableEq, Repr

/-- The text of a tier. -/
def RiskTier.text : RiskTier → String
  | trivial => "trivial"
  | lite => "lite"
  | full => "full"
  | sensitive => "sensitive"

/-- `_TIER_CAPS`. -/
def RiskTier.cap : RiskTier → ℤ
  | trivial => 3
  | lite => 8
  | full => 20
  | sensitive => 30

/-- `_clamp_cap`, of the value's `int`. -/
def clampCap (n : ℤ) : ℤ := max 3 (min 50 n)

/-- The tier, and the reason given for it. -/
def bucket (riskSignals : List String) (linesChanged filesChanged : ℤ) : RiskTier × String :=
  if riskSignals ≠ [] then
    (.sensitive, "Risk signals fired: " ++ Text.join ", " (riskSignals.take 3) ++ ".")
  else if 100 < linesChanged ∨ 5 < filesChanged then
    (.full, "Large diff (" ++ toString linesChanged ++ " lines across " ++ toString filesChanged ++
      " files).")
  else if linesChanged ≤ 10 ∧ filesChanged = 1 then
    (.trivial, "Single-file change ≤ 10 lines, no risk path.")
  else
    (.lite, "Small diff (" ++ toString linesChanged ++ " lines across " ++ toString filesChanged ++
      " files), no risk path.")

/-- The statistics of the diff, all zero where there are none. -/
def diffStats (env : Dict) : Dict :=
  let stats := ensureDict (env.get "diff_stats")
  if stats.isEmpty then [("lines_changed", .int 0), ("files_changed", .int 0)] else stats

/-- `int(diff_stats.get(field, 0) or 0)`. -/
def readCount (env : Dict) (field : String) : Result ℤ :=
  rt.toInt (((diffStats env).getD field (.int 0)).or (.int 0))

/-- The risk signals of the run. -/
def envRiskSignals (env : Dict) : List String :=
  detectRiskSignals rt (changedFiles env) (ensureDict (env.get "project_profile"))

/-- The tier of the run with its rationale, before any override of the cap. -/
def triageTier (env : Dict) : Result (RiskTier × String) := do
  let linesChanged ← readCount rt env "lines_changed"
  let filesChanged ← readCount rt env "files_changed"
  return bucket (envRiskSignals rt env) linesChanged filesChanged

/-- The cap that `--max-reviewers` asks for; what `float()` cannot read, and a NaN, is passed
over. -/
def capOverride (override : Value) : Result (Option ℤ) :=
  if override.isNone then .ok none
  else
    match rt.toFloat override with
    | .error .typeError => .ok none
    | .error .valueError => .ok none
    | .error e => .error e
    | .ok .nan => .ok none
    | .ok n => do
      let n ← n.trunc
      return some (clampCap n)

/-- The outputs of the triage. -/
structure Triage where
  tier : RiskTier
  cap : ℤ
  tierRationale : String
  riskSignals : List String
  scopeOverridesPresent : Bool
  deriving DecidableEq, Repr

/-- The outputs as a dictionary. -/
def Triage.toDict (t : Triage) : Dict :=
  [("tier", .str t.tier.text), ("cap", .int t.cap), ("tier_rationale", .str t.tierRationale),
    ("risk_signals", ofStrs t.riskSignals),
    ("scope_overrides_present", .bool t.scopeOverridesPresent)]

/-- `handle_risk_tier_triage`. -/
def handleRiskTierTriage (env : Dict) : Result Triage := do
  let args := ensureDict (env.get "args")
  let (tier, rationale) ← triageTier rt env
  let override ← capOverride rt (args.get "max-reviewers")
  return {
    tier
    cap := override.getD tier.cap
    tierRationale := override.elim rationale fun cap =>
      rationale ++ " Cap overridden to " ++ toString cap ++ " via --max-reviewers."
    riskSignals := envRiskSignals rt env
    scopeOverridesPresent := detectScopeOverrides args }

/-- `handle_short_circuit_exit`. -/
def handleShortCircuitExit : Dict :=
  [("findings", .list []),
    ("severity_counts", .dict (validSeverities.map fun s => (s, .int 0))),
    ("coverage_matrix", .list []),
    ("coverage_gaps", .list []),
    ("gates", .list (gateTable.map fun gate =>
      (GateRow.mk gate.1 gate.2 .notApplicable [] 0).toValue)),
    ("verdict", .str Verdict.go.text),
    ("short_circuited", .bool true)]

variable {rt}

/-! ### Risky paths -/

/-- The path contains a risk keyword after lower-casing, or matches a high-risk pattern. -/
def RiskyPath (rt : Runtime) (path : String) : Prop :=
  (∃ keyword ∈ riskKeywords, Text.contains (rt.lower path) keyword = true) ∨
    ∃ p ∈ highRiskPatterns, p.search path = true

theorem pathSignals_eq_nil_iff {path : String} :
    pathSignals rt path = [] ↔ ¬ RiskyPath rt path := by
  rw [pathSignals, List.append_eq_nil_iff, List.map_eq_nil_iff, List.filter_eq_nil_iff,
    Option.toList_eq_nil_iff, Option.map_eq_none_iff, List.find?_eq_none, RiskyPath, not_or]
  simp only [not_exists, not_and]

/-- **There is a risk signal exactly when a path is risky or the profile lists infrastructure.** -/
theorem detectRiskSignals_eq_nil_iff {changed : List String} {profile : Dict} :
    detectRiskSignals rt changed profile = [] ↔
      (∀ path ∈ changed, ¬ RiskyPath rt path) ∧ ensureList (profile.get "iac") = [] := by
  have hset : detectRiskSignals rt changed profile = [] ↔ changed.flatMap (pathSignals rt) ++
      (if ensureList (profile.get "iac") = [] then [] else ["profile:iac-present"]) = [] := by
    simp only [List.eq_nil_iff_forall_not_mem, detectRiskSignals, mem_sortedSet]
  rw [hset, List.append_eq_nil_iff, List.flatMap_eq_nil_iff]
  refine and_congr (forall₂_congr fun path _ => pathSignals_eq_nil_iff) ?_
  split_ifs with hiac
  · exact ⟨fun _ => hiac, fun _ => rfl⟩
  · exact ⟨fun h => h.elim, fun h => absurd h hiac⟩

theorem detectScopeOverrides_eq_false_iff {args : Dict} : detectScopeOverrides args = false ↔
    ∀ key ∈ scopeOverrideKeys, (args.get key).isNone = true := by
  rw [detectScopeOverrides, List.any_eq_false]
  simp only [Bool.not_eq_true', Bool.not_eq_false]

/-! ### The tier -/

theorem bucket_sensitive_iff {signals : List String} {lines files : ℤ} :
    (bucket signals lines files).1 = .sensitive ↔ signals ≠ [] := by
  unfold bucket
  split_ifs with hsignals hlarge hsmall
  · exact ⟨fun _ => hsignals, fun _ => rfl⟩
  · exact ⟨fun h => h.elim, fun h => absurd h hsignals⟩
  · exact ⟨fun h => h.elim, fun h => absurd h hsignals⟩
  · exact ⟨fun h => h.elim, fun h => absurd h hsignals⟩

theorem bucket_trivial_iff {signals : List String} {lines files : ℤ} :
    (bucket signals lines files).1 = .trivial ↔ signals = [] ∧ lines ≤ 10 ∧ files = 1 := by
  unfold bucket
  split_ifs with hsignals hlarge hsmall
  · exact ⟨fun h => h.elim, fun h => absurd h.1 hsignals⟩
  · refine ⟨fun h => h.elim, ?_⟩
    rintro ⟨-, hlines, hfiles⟩
    omega
  · exact ⟨fun _ => ⟨not_not.1 hsignals, hsmall⟩, fun _ => rfl⟩
  · exact ⟨fun h => h.elim, fun h => absurd h.2 hsmall⟩

/-- An `integer` of JSON schema, which a float without fraction also is. -/
def IsInteger (v : Value) (n : ℤ) : Prop := v = .int n ∨ v = .float (.fin n)

/-- The scan output meets the part of its schema that the triage reads. -/
structure ScanOutput (env : Dict) : Prop where
  profile : ∃ profile, env.get "project_profile" = .dict profile ∧
    ∀ iac, Assoc.get? profile "iac" = some iac → ∃ entries, iac = ofStrs entries
  changedPaths : ∃ paths, env.get "changed_paths" = ofStrs paths
  counts : ∃ stats, env.get "diff_stats" = .dict stats ∧
    ∀ field ∈ ["lines_changed", "files_changed"], ∃ v, Assoc.get? stats field = some v ∧
      ∃ n : ℕ, IsInteger v n

theorem IsInteger.toInt {v : Value} {n : ℤ} (h : IsInteger v n) :
    rt.toInt (v.or (.int 0)) = .ok n := by
  have hzero : (Value.int 0).truthy = false := rfl
  rcases h with rfl | rfl
  · by_cases hn : n = 0
    · rw [hn, Value.or_of_falsy _ hzero]
      rfl
    · have htruthy : (Value.int n).truthy = true := decide_eq_true hn
      rw [Value.or_of_truthy _ htruthy]
      rfl
  · have htrunc : Double.trunc (.fin n) = .ok n := by simp [Double.trunc]
    by_cases hn : n = 0
    · have hfalsy : (Value.float (.fin n)).truthy = false := by
        simp [Value.truthy, Double.truthy, Double.eq, hn]
      rw [Value.or_of_falsy _ hfalsy, hn]
      rfl
    · have htruthy : (Value.float (.fin n)).truthy = true := by
        simp [Value.truthy, Double.truthy, Double.eq, hn]
      rw [Value.or_of_truthy _ htruthy]
      exact htrunc

/-- The count of a diff, as its schema has it. -/
def CountIs (env : Dict) (field : String) (n : ℤ) : Prop :=
  IsInteger ((ensureDict (env.get "diff_stats")).get field) n

theorem CountIs.readCount {env : Dict} {field : String} {n : ℤ} (h : CountIs env field n) :
    readCount rt env field = .ok n := by
  have hstats : (ensureDict (env.get "diff_stats")).isEmpty = false := by
    rw [Bool.eq_false_iff]
    intro hempty
    rw [CountIs, List.isEmpty_iff.1 hempty] at h
    rcases h with h | h <;> cases h
  have hvalue : (diffStats env).getD field (.int 0) =
      (ensureDict (env.get "diff_stats")).get field := by
    have hdiff : diffStats env = ensureDict (env.get "diff_stats") := by
      rw [diffStats, hstats]
      rfl
    rw [hdiff]
    unfold CountIs at h
    generalize ensureDict (env.get "diff_stats") = stats at h
    show (Assoc.get? stats field).getD (.int 0) = (Assoc.get? stats field).getD .none
    cases hget : Assoc.get? stats field with
    | some v => rfl
    | none =>
      rw [Dict.get, hget] at h
      rcases h with h | h <;> cases h
  rw [CodeReview.readCount, hvalue]
  exact h.toInt

theorem CountIs.unique {env : Dict} {field : String} {m n : ℤ} (hm : CountIs env field m)
    (hn : CountIs env field n) : m = n := by
  have hread : CodeReview.readCount .ascii env field = .ok m := hm.readCount
  rw [hn.readCount] at hread
  exact (Except.ok.inj hread).symm

theorem ScanOutput.count {env : Dict} (h : ScanOutput env) (field : String)
    (hfield : field ∈ ["lines_changed", "files_changed"]) : ∃ n : ℕ, CountIs env field n := by
  obtain ⟨stats, hstats, hcounts⟩ := h.counts
  obtain ⟨v, hv, n, hn⟩ := hcounts field hfield
  refine ⟨n, ?_⟩
  rw [CountIs, hstats, ensureDict_dict, Dict.get_of_get? hv]
  exact hn

/-- **On a scan output the tier is that of its signals and its counts.** -/
theorem triageTier_of_scan {env : Dict} (h : ScanOutput env) : ∃ lines files : ℕ,
    CountIs env "lines_changed" lines ∧ CountIs env "files_changed" files ∧
      triageTier rt env = .ok (bucket (envRiskSignals rt env) lines files) := by
  obtain ⟨lines, hlines⟩ := h.count "lines_changed" (by decide)
  obtain ⟨files, hfiles⟩ := h.count "files_changed" (by decide)
  refine ⟨lines, files, hlines, hfiles, ?_⟩
  rw [triageTier, hlines.readCount, hfiles.readCount]
  rfl

/-! ### The cap -/

theorem clampCap_mem (n : ℤ) : 3 ≤ clampCap n ∧ clampCap n ≤ 50 := by
  unfold clampCap
  omega

/-- The override is absent, or its `float` is no infinity and does not overflow. -/
def Clampable (rt : Runtime) (override : Value) : Prop :=
  override.isNone = true ∨ (∀ x, rt.toFloat override = .ok x → x ≠ .inf ∧ x ≠ .ninf) ∧
    ∀ e, rt.toFloat override = .error e → e = .typeError ∨ e = .valueError

theorem capOverride_ok_iff {override : Value} :
    Result.Ok (capOverride rt override) ↔ Clampable rt override := by
  unfold capOverride Clampable
  by_cases hnone : override.isNone = true
  · rw [if_pos hnone]
    exact ⟨fun _ => .inl hnone, fun _ => Result.ok_ok _⟩
  · rw [if_neg hnone, or_iff_right hnone]
    cases hfloat : rt.toFloat override with
    | error e => cases e <;> simp [Result.Ok]
    | ok x => cases x <;> simp [Result.Ok, Double.trunc]

theorem handleRiskTierTriage_tier {env : Dict} {t : Triage}
    (h : handleRiskTierTriage rt env = .ok t) :
    ∃ rationale, triageTier rt env = .ok (t.tier, rationale) := by
  obtain ⟨⟨tier, rationale⟩, htier, h⟩ := Result.bind_eq_ok.1 h
  obtain ⟨override, -, h⟩ := Result.bind_eq_ok.1 h
  obtain rfl := Except.ok.inj h
  exact ⟨rationale, htier⟩

theorem handleRiskTierTriage_reads {env : Dict} {t : Triage}
    (h : handleRiskTierTriage rt env = .ok t) : t.riskSignals = envRiskSignals rt env ∧
      t.scopeOverridesPresent = detectScopeOverrides (ensureDict (env.get "args")) := by
  obtain ⟨⟨tier, rationale⟩, -, h⟩ := Result.bind_eq_ok.1 h
  obtain ⟨override, -, h⟩ := Result.bind_eq_ok.1 h
  obtain rfl := Except.ok.inj h
  exact ⟨rfl, rfl⟩

/-- **On a scan output the triage returns unless the cap is overridden by a value that cannot be
clamped.** -/
theorem handleRiskTierTriage_ok_iff {env : Dict} (h : ScanOutput env) :
    Result.Ok (handleRiskTierTriage rt env) ↔
      Clampable rt ((ensureDict (env.get "args")).get "max-reviewers") := by
  obtain ⟨lines, files, -, -, htier⟩ := @triageTier_of_scan rt env h
  rw [← capOverride_ok_iff, handleRiskTierTriage, htier, Result.ok_bind]
  constructor
  · rintro ⟨t, ht⟩
    obtain ⟨override, hoverride, -⟩ := Result.bind_eq_ok.1 ht
    exact ⟨override, hoverride⟩
  · rintro ⟨override, hoverride⟩
    exact ⟨_, Result.bind_eq_ok.2 ⟨override, hoverride, rfl⟩⟩

/-- The cap is in the range that the state's schema asks for. -/
theorem handleRiskTierTriage_cap {env : Dict} {t : Triage}
    (h : handleRiskTierTriage rt env = .ok t) : 3 ≤ t.cap ∧ t.cap ≤ 50 := by
  obtain ⟨⟨tier, rationale⟩, -, h⟩ := Result.bind_eq_ok.1 h
  obtain ⟨override, hoverride, h⟩ := Result.bind_eq_ok.1 h
  obtain rfl := Except.ok.inj h
  show 3 ≤ override.getD tier.cap ∧ override.getD tier.cap ≤ 50
  cases override with
  | none => cases tier <;> decide
  | some cap =>
    -- an override that is taken has been clamped
    unfold capOverride at hoverride
    split_ifs at hoverride
    · cases hoverride
    · split at hoverride
      · cases hoverride
      · cases hoverride
      · cases hoverride
      · cases hoverride
      · obtain ⟨n, -, hn⟩ := Result.bind_eq_ok.1 hoverride
        obtain rfl := Option.some.inj (Except.ok.inj hn)
        exact clampCap_mem n

/-- The override of the cap, as the values go: a number in the range of a double, a text that is
no infinity, or anything that is not read as a number at all. -/
def CapReadable (rt : Runtime) : Value → Prop
  | .int n => |(n : ℚ)| < Double.bound
  | .float x => x ≠ .inf ∧ x ≠ .ninf
  | .str s => rt.parseFloat s ≠ some .inf ∧ rt.parseFloat s ≠ some .ninf
  | _ => True

theorem clampable_iff_capReadable {override : Value} :
    Clampable rt override ↔ CapReadable rt override := by
  unfold Clampable Runtime.toFloat
  cases override with
  | int n =>
    by_cases hn : |(n : ℚ)| < Double.bound
    · simp [Value.isNone, Value.toFloat?, CapReadable, Double.ofInt_eq_ok hn, hn]
    · simp [Value.isNone, Value.toFloat?, CapReadable, Double.ofInt, not_lt.1 hn, hn]
  | float x => simp [Value.isNone, Value.toFloat?, CapReadable]
  | str s => cases h : rt.parseFloat s <;> simp [Value.isNone, Value.toFloat?, CapReadable, h]
  | _ => simp [Value.isNone, Value.toFloat?, CapReadable]

/-- The triage returns, and its cap is in the range of the state. -/
def TriageInRange (rt : Runtime) (env : Dict) : Prop :=
  ∃ t, handleRiskTierTriage rt env = .ok t ∧ 3 ≤ t.cap ∧ t.cap ≤ 50

/-- **On a scan output the triage returns a cap in range unless the override is infinite.** -/
theorem triage_inRange_iff (rt : Runtime) {env : Dict} (h : ScanOutput env) :
    TriageInRange rt env ↔ CapReadable rt ((ensureDict (env.get "args")).get "max-reviewers") := by
  rw [← clampable_iff_capReadable, ← handleRiskTierTriage_ok_iff h]
  constructor
  · rintro ⟨t, ht, -⟩
    exact ⟨t, ht⟩
  · rintro ⟨t, ht⟩
    exact ⟨t, ht, handleRiskTierTriage_cap ht⟩

/-- A scan of one file, with an override of the cap. -/
def overriddenScan (override : Value) : Dict :=
  [("args", .dict [("max-reviewers", override)]),
    ("project_profile", .dict [("languages", ofStrs ["python"])]),
    ("changed_paths", ofStrs ["a.py"]),
    ("diff_stats", .dict [("lines_changed", .int 5), ("files_changed", .int 1)])]

theorem overriddenScan_output (override : Value) : ScanOutput (overriddenScan override) := by
  refine ⟨⟨_, rfl, ?_⟩, ⟨_, rfl⟩, ⟨_, rfl, ?_⟩⟩
  · intro iac hiac
    cases hiac
  · intro field hfield
    rcases List.mem_cons.1 hfield with rfl | hfield
    · exact ⟨_, rfl, 5, .inl rfl⟩
    · rw [List.mem_singleton.1 hfield]
      exact ⟨_, rfl, 1, .inl rfl⟩

/-- The theorem applied to an override by a number. -/
theorem triage_inRange_iff_seven : TriageInRange .ascii (overriddenScan (.float (.fin 7))) :=
  (triage_inRange_iff .ascii (overriddenScan_output _)).2 ⟨nofun, nofun⟩

/-- A runtime whose `float()` reads the text `inf`. -/
def infRuntime : Runtime :=
  { Runtime.ascii with parseFloat := fun s => if s = "inf" then some .inf else none }

/-- **An infinite override raises.** -/
theorem infinite_override_raises : ¬ TriageInRange infRuntime (overriddenScan (.str "inf")) := by
  rintro ⟨t, ht, -⟩
  have hraises : handleRiskTierTriage infRuntime (overriddenScan (.str "inf")) =
      .error .overflowError := by decide
  rw [hraises] at ht
  cases ht

end CodeReview

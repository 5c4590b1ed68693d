import CodeReview.Handlers.Activation
import CodeReview.Spec

/-!
# The coverage floor

When `llm_trim` picks no leaf although some were activated, `_coverage_floor` picks from the
activated leaves by a score.

* `coverageFloor_ok_iff` : when the floor raises;
* `coverageFloor_picks` : **with a positive cap and leaves that have an id and a path, it picks
  one.**
-/

namespace CodeReview

open Py

/-- `_FLOOR_PREFIXES`. -/
def floorPrefixes : List String :=
  ["lang-", "fw-", "sec-", "footgun-", "orm-", "reliability-", "data-"]

section

variable (rt : Runtime)

/-- `set(v)`: every element must have a hash. -/
def pySet (v : Value) : Result (List Value) := do
  let xs ← v.iter
  if xs.all Value.hashable then return xs else throw .typeError

/-- `langs`. -/
def floorLangs (env : Dict) : Result (List String) := do
  match (env.get "project_profile").or (.dict []) with
  | .dict profile =>
    let xs ← ((Dict.get profile "languages").or (.list [])).iter
    return xs.map rt.str
  | _ => throw .attributeError

/-- `score`. -/
def floorScore (langs : List String) (leaf : Dict) : Result ℕ := do
  let dims ← pySet ((leaf.get "dimensions").or (.list []))
  let lid := rt.str (leaf.getD "id" (.str ""))
  let signals ← ((leaf.get "activation_match").or (.list [])).len?
  return (if dims.any fun d => d.eqv "security" || d.eqv "correctness" then 3 else 0) +
    (if floorPrefixes.any (Text.startsWith lid) then 2 else 0) +
    (if langs.any fun lang => lang ≠ "" && Text.contains lid lang then 1 else 0) + signals

/-- `xs[:cap]`. -/
def pyTake {α : Type} (cap : ℤ) (xs : List α) : List α :=
  if 0 ≤ cap then xs.take cap.toNat else xs.take (xs.length - cap.natAbs)

/-- The picked leaf of an activated one, unless it lacks an id or a path. -/
def floorPick (leaf : Dict) : Option Value :=
  if (leaf.get "id").truthy && (leaf.get "path").truthy then
    some (.dict [("id", leaf.get "id"), ("path", leaf.get "path"),
      ("justification", "deterministic coverage floor (LLM trim returned empty)"),
      ("dimensions", (leaf.get "dimensions").or (.list []))])
  else none

/-- The leaves the floor picks from `activated`, best score first. -/
def floorPicks (env : Dict) (activated : List Value) : Result (List Value) := do
  let cap ← rt.toInt (((env.get "cap").or (env.get "tier_cap")).or (.int 20))
  let langs ← floorLangs rt env
  let keyed ← Result.withKeys (floorScore rt langs) (dicts activated)
  let ranked := (keyed.mergeSort fun a b => b.1 ≤ a.1).map Prod.snd
  return (pyTake cap ranked).filterMap floorPick

/-- `_coverage_floor`: the repaired outputs, where there is something to repair. -/
def coverageFloor (state : StateId) (inputs outputs env : Dict) : Result (Option Dict) := do
  if state ≠ .llmTrim then return none
  else if (outputs.get "picked_leaves").truthy then return none
  else
    match ((env.get "activated_leaves").or (inputs.get "stage_a_candidates")).or (.list []) with
    | .list (leaf :: leaves) =>
      let picked ← floorPicks rt env (leaf :: leaves)
      if picked = [] then return none
      else
        let merged := Assoc.set outputs "picked_leaves" (.list picked)
        let merged := Assoc.setdefault merged "rejected_leaves" (.list [])
        return some (Assoc.setdefault merged "coverage_rescues" (.list []))
    | _ => return none

end

variable {rt : Runtime}

theorem withKeys_ok_iff {α β : Type} {key : α → Result β} {xs : List α} :
    Result.Ok (Result.withKeys key xs) ↔ ∀ a ∈ xs, Result.Ok (key a) := by
  refine ⟨fun ⟨ys, h⟩ a ha => ?_, Result.withKeys_ok⟩
  obtain ⟨b, -, hb⟩ := Result.exists_of_mapM_left h ha
  obtain ⟨k, hk, -⟩ := Result.bind_eq_ok.1 hb
  exact ⟨k, hk⟩

/-- What the floor reads of an environment and of the activated leaves can be read. -/
structure FloorReadable (rt : Runtime) (env : Dict) (activated : List Value) : Prop where
  cap : Result.Ok (rt.toInt (((env.get "cap").or (env.get "tier_cap")).or (.int 20)))
  langs : ∃ profile : Dict, (env.get "project_profile").or (.dict []) = .dict profile ∧
    Result.Ok ((profile.get "languages").or (.list [])).iter
  leaves : ∀ leaf : Dict, .dict leaf ∈ activated →
    Result.Ok (pySet ((leaf.get "dimensions").or (.list []))) ∧
      Result.Ok ((leaf.get "activation_match").or (.list [])).len?

theorem floorLangs_ok_iff {env : Dict} :
    Result.Ok (floorLangs rt env) ↔
      ∃ profile : Dict, (env.get "project_profile").or (.dict []) = .dict profile ∧
        Result.Ok ((profile.get "languages").or (.list [])).iter := by
  unfold floorLangs
  cases hprofile : (env.get "project_profile").or (.dict []) with
  | dict profile =>
    simp only [Value.dict.injEq, exists_eq_left', Result.ok_bind_iff, Result.pure_eq_ok,
      Result.ok_ok, and_true]
    rfl
  | _ => simp

theorem floorScore_ok_iff {langs : List String} {leaf : Dict} :
    Result.Ok (floorScore rt langs leaf) ↔
      Result.Ok (pySet ((leaf.get "dimensions").or (.list []))) ∧
        Result.Ok ((leaf.get "activation_match").or (.list [])).len? := by
  simp only [floorScore, Result.ok_bind_iff, Result.pure_eq_ok, Result.ok_ok, and_true]
  constructor
  · rintro ⟨dims, hdims, signals, hsignals⟩
    exact ⟨⟨dims, hdims⟩, signals, hsignals⟩
  · rintro ⟨⟨dims, hdims⟩, signals, hsignals⟩
    exact ⟨dims, hdims, signals, hsignals⟩

theorem floorPicks_ok_iff {env : Dict} {activated : List Value} :
    Result.Ok (floorPicks rt env activated) ↔ FloorReadable rt env activated := by
  simp only [floorPicks, Result.ok_bind_iff, Result.pure_eq_ok, Result.ok_ok, and_true]
  constructor
  · rintro ⟨cap, hcap, langs, hlangs, keyed, hkeyed⟩
    refine ⟨⟨cap, hcap⟩, floorLangs_ok_iff.1 ⟨langs, hlangs⟩, ?_⟩
    intro leaf hleaf
    exact floorScore_ok_iff.1 (withKeys_ok_iff.1 ⟨keyed, hkeyed⟩ leaf (mem_dicts.2 hleaf))
  · rintro ⟨⟨cap, hcap⟩, hlangs, hleaves⟩
    obtain ⟨langs, hlangs⟩ := (floorLangs_ok_iff : Result.Ok (floorLangs rt env) ↔ _).2 hlangs
    obtain ⟨keyed, hkeyed⟩ := withKeys_ok_iff.2 fun leaf hleaf =>
      (floorScore_ok_iff : Result.Ok (floorScore rt langs leaf) ↔ _).2
        (hleaves leaf (mem_dicts.1 hleaf))
    exact ⟨cap, hcap, langs, hlangs, keyed, hkeyed⟩

/-- The leaves that the floor picks from. -/
def floorSource (inputs env : Dict) : Value :=
  ((env.get "activated_leaves").or (inputs.get "stage_a_candidates")).or (.list [])

/-- The floor raises exactly where it has to pick and cannot read what it picks from. -/
theorem coverageFloor_ok_iff {state : StateId} {inputs outputs env : Dict} :
    Result.Ok (coverageFloor rt state inputs outputs env) ↔
      (state = .llmTrim → (outputs.get "picked_leaves").truthy = false →
        ∀ leaf leaves, floorSource inputs env = .list (leaf :: leaves) →
          FloorReadable rt env (leaf :: leaves)) := by
  unfold coverageFloor
  by_cases hstate : state = .llmTrim
  · cases hpicked : (outputs.get "picked_leaves").truthy with
    | true => simp [hstate]
    | false =>
      simp only [hstate, ne_eq, not_true_eq_false, if_false, Bool.false_eq_true, true_implies]
      rw [show ((env.get "activated_leaves").or (inputs.get "stage_a_candidates")).or (.list []) =
        floorSource inputs env from rfl]
      -- what is not a list, and an empty list, is not picked from
      cases hsource : floorSource inputs env with
      | list xs =>
        cases xs with
        | nil => simp
        | cons leaf leaves =>
          simp only [Value.list.injEq, List.cons.injEq, and_imp, forall_eq',
            forall_apply_eq_imp_iff, Result.ok_bind_iff, ← floorPicks_ok_iff]
          constructor
          · rintro ⟨picked, hpicks, -⟩
            exact ⟨picked, hpicks⟩
          · rintro ⟨picked, hpicks⟩
            refine ⟨picked, hpicks, ?_⟩
            split_ifs <;> exact ⟨_, rfl⟩
      | _ => simp
  · simp [hstate]

/-! ### What the floor picks -/

theorem floorPick_of_pickable {leaf : Dict} (h : Pickable leaf) :
    ∃ pick, floorPick leaf = some pick := by
  unfold floorPick
  rw [h.1, h.2]
  exact ⟨_, rfl⟩

/-- Sorting keeps every leaf. -/
theorem mem_ranked {keyed : List (ℕ × Dict)} {leaf : Dict} :
    leaf ∈ (keyed.mergeSort fun a b => b.1 ≤ a.1).map Prod.snd ↔ leaf ∈ keyed.map Prod.snd :=
  ((List.mergeSort_perm keyed _).map Prod.snd).mem_iff

/-- A positive cap takes the first element. -/
theorem head_mem_pyTake {α : Type} {cap : ℤ} (hcap : 1 ≤ cap) (a : α) (xs : List α) :
    a ∈ pyTake cap (a :: xs) := by
  have hpos : cap.toNat = (cap.toNat - 1) + 1 := by omega
  rw [pyTake, if_pos (by omega), hpos, List.take_succ_cons]
  exact List.mem_cons_self

theorem floorPicks_ne_nil {env : Dict} {activated picked : List Value} {cap : ℤ}
    (h : floorPicks rt env activated = .ok picked) (hget : env.get "cap" = .int cap)
    (hcap : 1 ≤ cap) (hne : dicts activated ≠ [])
    (hpick : ∀ leaf ∈ dicts activated, Pickable leaf) : picked ≠ [] := by
  simp only [floorPicks, Result.bind_eq_ok] at h
  obtain ⟨cap', hcap', langs, -, keyed, hkeyed, hpicked⟩ := h
  -- a positive cap is the one that is read
  have htruthy : (Value.int cap).truthy = true := by simp [Value.truthy]; omega
  rw [hget, Value.or_of_truthy _ htruthy, Value.or_of_truthy _ htruthy] at hcap'
  obtain rfl : cap = cap' := Except.ok.inj hcap'
  obtain ⟨hmap, -⟩ := Result.withKeys_eq_ok hkeyed
  obtain rfl := Except.ok.inj hpicked
  cases hranked : (keyed.mergeSort fun a b => b.1 ≤ a.1).map Prod.snd with
  | nil =>
    obtain ⟨leaf, hleaf⟩ := List.exists_mem_of_ne_nil _ hne
    rw [← hmap, ← mem_ranked, hranked] at hleaf
    cases hleaf
  | cons leaf rest =>
    have hleaf : leaf ∈ dicts activated := by
      rw [← hmap, ← mem_ranked, hranked]
      exact List.mem_cons_self
    obtain ⟨pick, hpick⟩ := floorPick_of_pickable (hpick leaf hleaf)
    refine List.ne_nil_of_mem (a := pick) (List.mem_filterMap.2 ⟨leaf, ?_, hpick⟩)
    exact head_mem_pyTake hcap leaf rest

/-- The outputs, repaired with picked leaves. -/
def repairedWith (outputs : Dict) (picked : List Value) : Dict :=
  Assoc.setdefault (Assoc.setdefault (Assoc.set outputs "picked_leaves" (.list picked))
    "rejected_leaves" (.list [])) "coverage_rescues" (.list [])

/-- Only the declared keys of a repaired output change. -/
theorem get?_repairedWith {outputs : Dict} {picked : List Value} {k : String}
    (h : k ∉ StateId.llmTrim.outputs) :
    Assoc.get? (repairedWith outputs picked) k = Assoc.get? outputs k := by
  simp only [StateId.outputs, List.mem_cons, List.not_mem_nil, or_false, not_or] at h
  rw [repairedWith, Assoc.get?_setdefault, if_neg (Ne.symm h.2.2), Assoc.get?_setdefault,
    if_neg (Ne.symm h.2.1), Assoc.get?_set, if_neg (Ne.symm h.1)]

theorem picked_repairedWith {outputs : Dict} {picked : List Value} :
    Assoc.get? (repairedWith outputs picked) "picked_leaves" = some (.list picked) := by
  rw [repairedWith, Assoc.get?_setdefault, if_neg (by decide), Assoc.get?_setdefault,
    if_neg (by decide), Assoc.get?_set, if_pos rfl]

theorem nodup_repairedWith {outputs : Dict} {picked : List Value}
    (h : (outputs.map Prod.fst).Nodup) : ((repairedWith outputs picked).map Prod.fst).Nodup :=
  Assoc.nodup_keys_setdefault
    (Assoc.nodup_keys_setdefault (Assoc.nodup_keys_set h _ _) _ _) _ _

/-- What the floor repairs of the outputs of `llm_trim`, if anything. -/
theorem coverageFloor_llmTrim {inputs outputs env : Dict} {res : Option Dict}
    (h : coverageFloor rt .llmTrim inputs outputs env = .ok res) :
    (res = none ∧ ((outputs.get "picked_leaves").truthy = true ∨
        ∀ leaf leaves, floorSource inputs env = .list (leaf :: leaves) →
          floorPicks rt env (leaf :: leaves) = .ok [])) ∨
      ∃ leaf leaves picked, floorSource inputs env = .list (leaf :: leaves) ∧ picked ≠ [] ∧
        floorPicks rt env (leaf :: leaves) = .ok picked ∧
          res = some (repairedWith outputs picked) := by
  unfold coverageFloor at h
  cases hpicked : (outputs.get "picked_leaves").truthy with
  | true =>
    simp only [ne_eq, not_true_eq_false, if_false, hpicked, if_true, Result.pure_eq_ok,
      Except.ok.injEq] at h
    exact .inl ⟨h.symm, .inl rfl⟩
  | false =>
    simp only [ne_eq, not_true_eq_false, if_false, hpicked, Bool.false_eq_true] at h
    rw [show ((env.get "activated_leaves").or (inputs.get "stage_a_candidates")).or (.list []) =
      floorSource inputs env from rfl] at h
    split at h
    · rename_i leaf leaves hsource
      obtain ⟨picked, hpicks, h⟩ := Result.bind_eq_ok.1 h
      -- a pick that stays empty repairs nothing
      by_cases hnil : picked = []
      · rw [if_pos hnil] at h
        refine .inl ⟨(Except.ok.inj h).symm, .inr ?_⟩
        intro leaf' leaves' hsource'
        rw [hsource, Value.list.injEq] at hsource'
        rw [← hsource', hpicks, hnil]
      · rw [if_neg hnil] at h
        exact .inr ⟨leaf, leaves, picked, hsource, hnil, hpicks, (Except.ok.inj h).symm⟩
    · rename_i hsource
      exact .inl ⟨(Except.ok.inj h).symm, .inr fun leaf leaves hlist =>
        absurd hlist (hsource leaf leaves)⟩

/-- **With a positive cap and activated leaves that can be picked, the floor picks one.** -/
theorem coverageFloor_picks {inputs outputs env : Dict} {res : Option Dict} {leaf : Value}
    {leaves : List Value} {cap : ℤ} (h : coverageFloor rt .llmTrim inputs outputs env = .ok res)
    (hactive : env.get "activated_leaves" = .list (leaf :: leaves))
    (hpick : ∀ v ∈ leaf :: leaves, ∃ d, v = .dict d ∧ Pickable d)
    (hget : env.get "cap" = .int cap) (hcap : 1 ≤ cap) :
    (res = none ∧ (outputs.get "picked_leaves").truthy = true) ∨
      ∃ picked, picked ≠ [] ∧ res = some (repairedWith outputs picked) := by
  have hsource : floorSource inputs env = .list (leaf :: leaves) := by
    rw [floorSource, hactive]
    rfl
  rcases coverageFloor_llmTrim h with ⟨hres, hpicked | hnone⟩ | ⟨_, _, picked, -, hne, -, hres⟩
  · exact .inl ⟨hres, hpicked⟩
  · -- the floor picks from leaves that can be picked
    obtain ⟨d, rfl, -⟩ := hpick leaf List.mem_cons_self
    refine absurd rfl (floorPicks_ne_nil (hnone _ leaves hsource) hget hcap ?_ ?_)
    · exact List.ne_nil_of_mem (mem_dicts.2 List.mem_cons_self)
    · intro d' hd'
      obtain ⟨d'', hd'', hpickable⟩ := hpick _ (mem_dicts.1 hd')
      rwa [Value.dict.inj hd'']
  · exact .inr ⟨picked, hne, hres⟩

end CodeReview

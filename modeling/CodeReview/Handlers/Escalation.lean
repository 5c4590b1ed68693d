import CodeReview.Handlers.Common
import CodeReview.Handlers.Glob
import CodeReview.Lib.Saturate
import CodeReview.Py.Assoc
import Mathlib.Order.Bounds.Basic

/-!
# Which leaves are activated

`_evaluate_activation` activates the leaves with a matching file glob, keyword or structural signal,
and then, sweep by sweep, those that escalate from an active leaf.  A sweep sees what it has already
added.

* `escalate_eq` : on well-typed leaves the sweeps are those of `Saturate`, and raise nothing;
* `evaluate_spec` : the leaves that come out are those that are active, in the order of their ids;
* `evaluateActivation_isLeast` : **they are the least set that is closed under escalation**,
  whatever the order of the leaves, with any larger cap, and more changed paths only add to them.
-/

namespace CodeReview

open Py

/-! ### The first pass -/

/-- What the interpreter knows of characters. -/
structure CharTable where
  /-- `c.isalnum()`. -/
  isAlnum : Char → Bool
  /-- A character of a pattern matches one of the text under `re.IGNORECASE`. -/
  sameIgnoringCase : Char → Char → Bool

/-- `leaf.get("activation") or {}`; nothing else has a `get`. -/
def activationOf (leaf : Dict) : Result Dict :=
  match (leaf.get "activation").or (.dict []) with
  | .dict activation => .ok activation
  | _ => .error .attributeError

/-- The id of a leaf, unless it is missing or empty. -/
def leafIdOf (leaf : Dict) : Option String :=
  match leaf.get "id" with
  | .str id => if id = "" then none else some id
  | _ => none

/-- `_file_globs_match`. -/
def fileGlobsMatch (globs : Value) (changedPaths : List Value) : Bool :=
  (strs (ensureList globs)).any fun glob =>
    glob ≠ "" && (strs changedPaths).any fun path => minimatch path glob

section

variable (ct : CharTable)

/-- `[A-Za-z0-9]` under `re.IGNORECASE`. -/
def isWordChar (c : Char) : Bool :=
  c.isAlphanum || "abcdefghijklmnopqrstuvwxyzABCDEFGHIJKLMNOPQRSTUVWXYZ0123456789".toList.any
    fun w => ct.sameIgnoringCase w c

/-- The text after the keyword, where the text starts with it. -/
def afterKeyword : List Char → List Char → Option (List Char)
  | [], cs => some cs
  | k :: ks, c :: cs => if ct.sameIgnoringCase k c then afterKeyword ks cs else none
  | _ :: _, [] => none

/-- The keyword stands at the start of the text, and next to no letter or digit where its own edge
is one; `before` is the character before the text. -/
def keywordAt (keyword : List Char) (before : Option Char) (text : List Char) : Bool :=
  -- an edge that is a symbol asks for no boundary
  (!keyword.head?.any ct.isAlnum || !before.any (isWordChar ct)) &&
    (afterKeyword ct keyword text).any fun after =>
      !keyword.getLast?.any ct.isAlnum || !after.head?.any (isWordChar ct)

/-- `_compile_keyword(norm).search(diff_text)`. -/
def keywordFound (keyword : List Char) : Option Char → List Char → Bool
  | before, [] => keywordAt ct keyword before []
  | before, c :: cs => keywordAt ct keyword before (c :: cs) || keywordFound keyword (some c) cs

/-- `_keyword_matches`. -/
def keywordMatches (keywords : Value) (diffText : String) : Bool :=
  diffText ≠ "" && (strs (ensureList keywords)).any fun keyword =>
    Text.strip keyword ≠ "" && keywordFound ct (Text.strip keyword).toList none diffText.toList

end

/-- The fields of the profile that structural signals are looked up in. -/
def profileFields : List String :=
  ["languages", "frameworks", "ci", "container", "iac", "build", "lint"]

/-- The lower-cased entries of the profile. -/
def profileHaystack (rt : Runtime) (profile : Dict) : List String :=
  (profileFields.flatMap fun key => (strs (ensureList (profile.get key))).map rt.lower) ++
    match profile.get "monorepo" with
    | .bool true => ["monorepo"]
    | _ => []

/-- `_structural_signals_match`. -/
def structuralSignalsMatch (rt : Runtime) (signals : Value) (profile : Dict) : Bool :=
  (strs (ensureList signals)).any fun s => rt.lower s ∈ profileHaystack rt profile

/-- What the leaves are evaluated on. -/
structure Change where
  changedPaths : List Value
  profile : Dict
  diffText : String

/-- The predicates of a block that fire. -/
def firedSignals (rt : Runtime) (ct : CharTable) (change : Change) (activation : Dict) :
    List String :=
  (if fileGlobsMatch (activation.get "file_globs") change.changedPaths then
      ["file_globs"] else []) ++
    (if keywordMatches ct (activation.get "keyword_matches") change.diffText then
      ["keyword_matches"] else []) ++
    if structuralSignalsMatch rt (activation.get "structural_signals") change.profile then
      ["structural_signals"] else []

/-- The active leaves, and why each is active. -/
structure Activated where
  leaves : OrdMap String Dict
  signals : OrdMap String (List String)

/-- `activated[leaf_id] = leaf; descent_signals[leaf_id] = signals`. -/
def Activated.record (st : Activated) (id : String) (leaf : Dict) (signals : List String) :
    Activated := ⟨st.leaves.set id leaf, st.signals.set id signals⟩

/-- One leaf of the first pass. -/
def fireLeaf (rt : Runtime) (ct : CharTable) (change : Change) (st : Activated) (leaf : Dict) :
    Result Activated :=
  match leafIdOf leaf with
  | none => .ok st
  | some id => do
    let activation ← activationOf leaf
    match firedSignals rt ct change activation with
    | [] => return st
    | signals => return st.record id leaf signals

/-! ### The escalation -/

/-- The leaves that the block escalates from. -/
def escalationFrom (activation : Dict) : List String :=
  strs (ensureList (activation.get "escalation_from"))

/-- The leaf is not active yet and escalates from an active one. -/
def escalateLeaf (st : Activated) (leaf : Dict) : Result (Option Activated) :=
  match leafIdOf leaf with
  | none => .ok none
  | some id =>
    -- an active leaf keeps the signals it has
    if id ∈ st.leaves.keys then .ok none
    else do
      let activation ← activationOf leaf
      return if (escalationFrom activation).any (· ∈ st.leaves.keys) then
        some (st.record id leaf ["escalation_from"]) else none

/-- One sweep; whether it changed anything. -/
def escalateOnce (leaves : List Dict) (st : Activated) : Result (Activated × Bool) :=
  leaves.foldlM (fun acc leaf => do
    match ← escalateLeaf acc.1 leaf with
    | some st' => return (st', true)
    | none => return acc) (st, false)

/-- The sweeps, up to a cap. -/
def escalate (leaves : List Dict) : ℕ → Activated → Result Activated
  | 0, st => .ok st
  | cap + 1, st => do
    let swept ← escalateOnce leaves st
    if swept.2 then escalate leaves cap swept.1 else return swept.1

/-- The key that leaves are sorted by. -/
def sortId (leaf : Dict) : String := (leaf.get "id").asStr?.getD ""

/-- `sorted` for strings. -/
def sortedStrs (xs : List String) : List String := xs.mergeSort fun a b => a ≤ b

/-- The active leaves and the map of their signals, both by id. -/
def Activated.sorted (st : Activated) : List Dict × List (String × List String) :=
  (st.leaves.values.mergeSort fun a b => sortId a ≤ sortId b,
    (sortedStrs st.signals.keys).map fun id => (id, sortedStrs ((st.signals.get? id).getD [])))

/-- `_evaluate_activation`, for any cap. -/
def evaluateWithin (cap : ℕ) (rt : Runtime) (ct : CharTable) (leaves : List Dict)
    (change : Change) : Result (List Dict × List (String × List String)) := do
  let fired ← leaves.foldlM (fireLeaf rt ct change) ⟨OrdMap.empty, OrdMap.empty⟩
  let st ← escalate leaves cap fired
  return st.sorted

/-- `_evaluate_activation`. -/
def evaluateActivation (rt : Runtime) (ct : CharTable) (leaves : List Dict) (change : Change) :
    Result (List Dict × List (String × List String)) :=
  evaluateWithin (leaves.length + 1) rt ct leaves change

/-! ### Well-typed leaves -/

/-- The activation block of a leaf that has one. -/
def blockOf (leaf : Dict) : Dict :=
  match activationOf leaf with
  | .ok activation => activation
  | .error _ => []

/-- The leaves have ids of their own, and blocks that are dictionaries if they are set at all. -/
structure WellTyped (leaves : List Dict) : Prop where
  id : ∀ leaf ∈ leaves, ∃ id, leaf.get "id" = .str id ∧ id ≠ ""
  distinct : (leaves.map sortId).Nodup
  block : ∀ leaf ∈ leaves, Result.Ok (activationOf leaf)

namespace WellTyped

variable {leaves : List Dict} (h : WellTyped leaves)

include h

theorem leafIdOf_eq {leaf : Dict} (hleaf : leaf ∈ leaves) : leafIdOf leaf = some (sortId leaf) := by
  obtain ⟨id, hid, hne⟩ := h.id leaf hleaf
  rw [leafIdOf, sortId, hid]
  exact if_neg hne

theorem activationOf_eq {leaf : Dict} (hleaf : leaf ∈ leaves) :
    activationOf leaf = .ok (blockOf leaf) := by
  obtain ⟨activation, hblock⟩ := h.block leaf hleaf
  rw [blockOf, hblock]

theorem sortId_inj {leaf leaf' : Dict} (hleaf : leaf ∈ leaves) (hleaf' : leaf' ∈ leaves)
    (hid : sortId leaf = sortId leaf') : leaf = leaf' :=
  List.inj_on_of_nodup_map h.distinct hleaf hleaf' hid

theorem perm {leaves' : List Dict} (hperm : leaves'.Perm leaves) : WellTyped leaves' where
  id leaf hleaf := h.id leaf (hperm.mem_iff.1 hleaf)
  distinct := (hperm.map sortId).nodup_iff.2 h.distinct
  block leaf hleaf := h.block leaf (hperm.mem_iff.1 hleaf)

end WellTyped

/-! ### What is active -/

section

variable (rt : Runtime) (ct : CharTable) (leaves : List Dict) (change : Change)

/-- A glob, a keyword or a structural signal of the leaf matches the change. -/
def Fires (leaf : Dict) : Prop :=
  fileGlobsMatch ((blockOf leaf).get "file_globs") change.changedPaths = true ∨
    keywordMatches ct ((blockOf leaf).get "keyword_matches") change.diffText = true ∨
    structuralSignalsMatch rt ((blockOf leaf).get "structural_signals") change.profile = true

/-- The leaf is one of the leaves and escalates from the parent. -/
def Escalates (parent leaf : Dict) : Prop :=
  leaf ∈ leaves ∧ sortId parent ∈ escalationFrom (blockOf leaf)

/-- The leaf fires, or escalates from an active leaf. -/
abbrev IsActive : Dict → Prop :=
  Saturate.Reached (fun leaf => leaf ∈ leaves ∧ Fires rt ct change leaf) (Escalates leaves)

/-- Why the leaf is active, if it is. -/
def signalsOf (leaf : Dict) : List String :=
  match firedSignals rt ct change (blockOf leaf) with
  | [] => ["escalation_from"]
  | signals => signals

end

variable {rt : Runtime} {ct : CharTable} {leaves : List Dict} {change : Change}

theorem firedSignals_ne_nil {leaf : Dict} :
    firedSignals rt ct change (blockOf leaf) ≠ [] ↔ Fires rt ct change leaf := by
  simp only [firedSignals, Fires, ne_eq, List.append_eq_nil_iff, ite_eq_right_iff,
    List.cons_ne_self, imp_false, not_and_or, not_not, or_assoc]

theorem signalsOf_of_fires {leaf : Dict} (h : Fires rt ct change leaf) :
    signalsOf rt ct change leaf = firedSignals rt ct change (blockOf leaf) := by
  have hne := firedSignals_ne_nil.2 h
  rw [signalsOf]
  cases hfired : firedSignals rt ct change (blockOf leaf) with
  | nil => exact absurd hfired hne
  | cons signal signals => rfl

theorem signalsOf_of_not_fires {leaf : Dict} (h : ¬ Fires rt ct change leaf) :
    signalsOf rt ct change leaf = ["escalation_from"] := by
  rw [signalsOf, not_not.1 (mt firedSignals_ne_nil.1 h)]

/-- An active leaf is one of the leaves. -/
theorem mem_of_active {leaf : Dict} (h : IsActive rt ct leaves change leaf) : leaf ∈ leaves := by
  cases h with
  | seed h => exact h.1
  | step _ h => exact h.1

/-- More changed paths fire more. -/
theorem Fires.mono {leaf : Dict} {paths : List Value} (hsub : change.changedPaths ⊆ paths)
    (h : Fires rt ct change leaf) : Fires rt ct { change with changedPaths := paths } leaf := by
  refine h.imp_left ?_
  intro h
  obtain ⟨glob, hglob, h⟩ := List.any_eq_true.1 h
  obtain ⟨hne, h⟩ := (Bool.and_eq_true _ _).mp h
  obtain ⟨path, hpath, hmatch⟩ := List.any_eq_true.1 h
  have hmore : path ∈ strs paths := mem_strs.2 (hsub (mem_strs.1 hpath))
  exact List.any_eq_true.2
    ⟨glob, hglob, (Bool.and_eq_true _ _).mpr ⟨hne, List.any_eq_true.2 ⟨path, hmore, hmatch⟩⟩⟩

/-! ### The state of the two passes -/

namespace Activated

@[simp] theorem get?_leaves_record (st : Activated) (id id' : String) (leaf : Dict)
    (signals : List String) : (st.record id leaf signals).leaves.get? id' =
      if id = id' then some leaf else st.leaves.get? id' := OrdMap.get?_set ..

@[simp] theorem get?_signals_record (st : Activated) (id id' : String) (leaf : Dict)
    (signals : List String) : (st.record id leaf signals).signals.get? id' =
      if id = id' then some signals else st.signals.get? id' := OrdMap.get?_set ..

/-- The leaf is recorded under its id. -/
def Has (st : Activated) (leaf : Dict) : Prop := st.leaves.get? (sortId leaf) = some leaf

theorem Has.mem_keys {st : Activated} {leaf : Dict} (h : st.Has leaf) :
    sortId leaf ∈ st.leaves.keys := by
  rw [OrdMap.mem_keys_iff, h]
  rfl

end Activated

/-- What is recorded is active, under its own id and with its signals; and every leaf seen that
fires is recorded. -/
structure Sound (rt : Runtime) (ct : CharTable) (leaves : List Dict) (change : Change)
    (seen : List Dict) (st : Activated) : Prop where
  active : ∀ {id leaf}, st.leaves.get? id = some leaf →
    sortId leaf = id ∧ IsActive rt ct leaves change leaf
  signals : ∀ id, st.signals.get? id = (st.leaves.get? id).map (signalsOf rt ct change)
  fired : ∀ leaf ∈ seen, Fires rt ct change leaf → st.Has leaf

namespace Sound

variable {seen : List Dict} {st : Activated}

theorem empty : Sound rt ct leaves change [] ⟨OrdMap.empty, OrdMap.empty⟩ where
  active h := nomatch h
  signals _ := rfl
  fired _ h := absurd h List.not_mem_nil

/-- Recording an active leaf, under its id and with its signals. -/
theorem record (hleaves : WellTyped leaves) (h : Sound rt ct leaves change seen st) {leaf : Dict}
    (hactive : IsActive rt ct leaves change leaf) :
    Sound rt ct leaves change (seen ++ [leaf])
      (st.record (sortId leaf) leaf (signalsOf rt ct change leaf)) where
  active {id leaf'} hget := by
    rw [Activated.get?_leaves_record] at hget
    split_ifs at hget with hid
    · obtain rfl := Option.some.inj hget
      exact ⟨hid, hactive⟩
    · exact h.active hget
  signals id := by
    rw [Activated.get?_leaves_record, Activated.get?_signals_record]
    split_ifs
    · rfl
    · exact h.signals id
  fired leaf' hmem hfires := by
    rw [Activated.Has, Activated.get?_leaves_record]
    split_ifs with hid
    · -- the ids are distinct, so only the leaf itself is overwritten
      rcases List.mem_append.1 hmem with hseen | hnew
      · have hactive' := (h.active (h.fired leaf' hseen hfires)).2
        exact congrArg some (hleaves.sortId_inj (mem_of_active hactive)
          (mem_of_active hactive') hid)
      · rw [List.mem_singleton.1 hnew]
    · rcases List.mem_append.1 hmem with hseen | hnew
      · exact h.fired leaf' hseen hfires
      · exact absurd (congrArg sortId (List.mem_singleton.1 hnew)).symm hid

theorem seen_subset {seen' : List Dict} (h : Sound rt ct leaves change seen st)
    (hsub : ∀ leaf ∈ seen', Fires rt ct change leaf → leaf ∈ seen) :
    Sound rt ct leaves change seen' st :=
  ⟨h.active, h.signals, fun leaf hleaf hfires => h.fired leaf (hsub leaf hleaf hfires) hfires⟩

theorem has_iff (h : Sound rt ct leaves change seen st) {leaf : Dict} :
    leaf ∈ st.leaves.values ↔ st.Has leaf := by
  rw [OrdMap.mem_values_iff]
  constructor
  · rintro ⟨id, hget⟩
    rw [Activated.Has, (h.active hget).1]
    exact hget
  · exact fun hget => ⟨_, hget⟩

/-- The ids of the recorded leaves are the keys. -/
theorem map_sortId_values (h : Sound rt ct leaves change seen st) :
    st.leaves.values.map sortId = st.leaves.keys := by
  rw [OrdMap.values, OrdMap.keys, List.map_map]
  refine List.map_congr_left ?_
  intro entry hentry
  exact (h.active ((OrdMap.mem_entries_iff _).1 hentry)).1

theorem mem_keys_signals (h : Sound rt ct leaves change seen st) {id : String} :
    id ∈ st.signals.keys ↔ id ∈ st.leaves.keys := by
  rw [OrdMap.mem_keys_iff, OrdMap.mem_keys_iff, h.signals, Option.isSome_map]

/-- No more leaves are recorded than there are. -/
theorem length_keys_le (h : Sound rt ct leaves change seen st) :
    st.leaves.keys.length ≤ leaves.length := by
  have hsub : st.leaves.keys ⊆ leaves.map sortId := by
    intro id hid
    rw [← h.map_sortId_values] at hid
    obtain ⟨leaf, hleaf, rfl⟩ := List.mem_map.1 hid
    exact List.mem_map_of_mem (mem_of_active (h.active (h.has_iff.1 hleaf)).2)
  have hle := (List.subperm_of_subset st.leaves.keys_nodup hsub).length_le
  rwa [List.length_map] at hle

end Sound

/-- The first pass records exactly the leaves that fire. -/
theorem fired_spec (rt : Runtime) (ct : CharTable) (change : Change) (hleaves : WellTyped leaves) :
    ∃ fired, leaves.foldlM (fireLeaf rt ct change) ⟨OrdMap.empty, OrdMap.empty⟩ = .ok fired ∧
      Sound rt ct leaves change leaves fired := by
  refine Result.foldlM_total (Sound rt ct leaves change) Sound.empty ?_
  intro seen st leaf hleaf h
  rw [fireLeaf, hleaves.leafIdOf_eq hleaf]
  simp only [hleaves.activationOf_eq hleaf, Result.ok_bind]
  -- a leaf is recorded in this pass exactly when it fires
  by_cases hfires : Fires rt ct change leaf
  · have hrecord := h.record hleaves (.seed ⟨hleaf, hfires⟩)
    rw [signalsOf_of_fires hfires] at hrecord
    cases hfired : firedSignals rt ct change (blockOf leaf) with
    | nil => exact absurd hfired (firedSignals_ne_nil.2 hfires)
    | cons signal signals => exact ⟨_, rfl, hfired ▸ hrecord⟩
  · rw [not_not.1 (mt firedSignals_ne_nil.1 hfires)]
    refine ⟨st, rfl, h.seen_subset ?_⟩
    intro leaf' hmem hfires'
    rcases List.mem_append.1 hmem with hseen | hnew
    · exact hseen
    · exact absurd (List.mem_singleton.1 hnew ▸ hfires') hfires

/-! ### The sweeps -/

/-- What `escalateLeaf` adds on well-typed leaves. -/
def escalated (st : Activated) (leaf : Dict) : Option Activated :=
  if sortId leaf ∈ st.leaves.keys then none
  else if (escalationFrom (blockOf leaf)).any (· ∈ st.leaves.keys) then
    some (st.record (sortId leaf) leaf ["escalation_from"])
  else none

theorem escalated_eq_some {st st' : Activated} {leaf : Dict} (h : escalated st leaf = some st') :
    sortId leaf ∉ st.leaves.keys ∧ (∃ id ∈ escalationFrom (blockOf leaf), id ∈ st.leaves.keys) ∧
      st' = st.record (sortId leaf) leaf ["escalation_from"] := by
  rw [escalated] at h
  split_ifs at h with hknown hany
  obtain ⟨id, hid, hkey⟩ := List.any_eq_true.1 hany
  exact ⟨hknown, ⟨id, hid, of_decide_eq_true hkey⟩, (Option.some.inj h).symm⟩

theorem escalateLeaf_eq (hleaves : WellTyped leaves) {leaf : Dict} (hleaf : leaf ∈ leaves)
    (st : Activated) : escalateLeaf st leaf = .ok (escalated st leaf) := by
  rw [escalateLeaf, hleaves.leafIdOf_eq hleaf, escalated]
  simp only [hleaves.activationOf_eq hleaf, Result.ok_bind, Result.pure_eq_ok]
  split_ifs <;> rfl

theorem escalateOnce_eq (hleaves : WellTyped leaves) (st : Activated) :
    escalateOnce leaves st = .ok (Saturate.sweep escalated leaves st) := by
  -- the accumulator also carries whether the sweep changed anything
  have hfold (acc : Activated × Bool) : ∀ done ⊆ leaves,
      done.foldlM (fun (acc : Activated × Bool) leaf => do
        match ← escalateLeaf acc.1 leaf with
        | some st' => return (st', true)
        | none => return acc) acc = .ok (done.foldl (Saturate.applied escalated) acc) := by
    intro done hdone
    induction done generalizing acc with
    | nil => rfl
    | cons leaf done ih =>
      obtain ⟨hleaf, hdone⟩ := List.cons_subset.1 hdone
      rw [List.foldlM_cons, List.foldl_cons, escalateLeaf_eq hleaves hleaf, Result.ok_bind,
        Saturate.applied]
      cases escalated acc.1 leaf with
      | none => exact ih acc hdone
      | some st' => exact ih (st', true) hdone
  exact hfold (st, false) leaves (List.Subset.refl leaves)

theorem escalate_eq (hleaves : WellTyped leaves) (cap : ℕ) (st : Activated) :
    escalate leaves cap st = .ok (Saturate.saturate escalated leaves cap st) := by
  induction cap generalizing st with
  | zero => rfl
  | succ cap ih =>
    rw [escalate, escalateOnce_eq hleaves, Result.ok_bind, Saturate.saturate]
    cases (Saturate.sweep escalated leaves st).2 with
    | true => exact ih _
    | false => rfl

/-- A leaf that escalates is active, has not fired, and is one more. -/
theorem grows_escalated (hleaves : WellTyped leaves) :
    Saturate.Grows escalated leaves (Sound rt ct leaves change leaves)
      (fun st => st.leaves.keys.length) leaves.length where
  inv {st leaf st'} hleaf h hadd := by
    obtain ⟨hnew, ⟨id, hid, hkey⟩, rfl⟩ := escalated_eq_some hadd
    obtain ⟨parent, hparent⟩ := Option.isSome_iff_exists.1 ((OrdMap.mem_keys_iff _).1 hkey)
    obtain ⟨rfl, hactive⟩ := h.active hparent
    have hnofire : ¬ Fires rt ct change leaf :=
      fun hfires => hnew (h.fired leaf hleaf hfires).mem_keys
    have hrecord := h.record hleaves (.step hactive ⟨hleaf, hid⟩)
    rw [signalsOf_of_not_fires hnofire] at hrecord
    exact hrecord.seen_subset fun leaf hleaf _ => List.mem_append_left _ hleaf
  lt {st leaf st'} _ _ hadd := by
    obtain ⟨hnew, -, rfl⟩ := escalated_eq_some hadd
    have hkeys : (st.record (sortId leaf) leaf ["escalation_from"]).leaves.keys =
        st.leaves.keys ++ [sortId leaf] := by
      exact (Assoc.keys_set _ _ _).trans (if_neg hnew)
    show st.leaves.keys.length < List.length (Activated.leaves _).keys
    rw [hkeys, List.length_append]
    exact Nat.lt_succ_self _
  le h := h.length_keys_le

/-- Where no leaf is left to escalate, what is recorded is what is active. -/
theorem mem_values_iff_active (hleaves : WellTyped leaves) {st : Activated}
    (h : Sound rt ct leaves change leaves st) (hclosed : ∀ leaf ∈ leaves, escalated st leaf = none)
    {leaf : Dict} :
    leaf ∈ st.leaves.values ↔ IsActive rt ct leaves change leaf := by
  rw [h.has_iff]
  refine ⟨fun hget => (h.active hget).2, ?_⟩
  intro hactive
  refine hactive.mem_of_closed (S := {leaf | st.Has leaf})
    (fun leaf hfires => h.fired leaf hfires.1 hfires.2) fun parent hparent leaf hesc => ?_
  -- the leaf escalates from a recorded one, so only being recorded keeps it from being added
  have hnone := hclosed leaf hesc.1
  have hany : (escalationFrom (blockOf leaf)).any (· ∈ st.leaves.keys) = true :=
    List.any_eq_true.2 ⟨sortId parent, hesc.2, decide_eq_true hparent.mem_keys⟩
  rw [escalated, hany, if_pos rfl] at hnone
  split_ifs at hnone with hknown
  -- the leaf recorded under this id is the leaf itself
  obtain ⟨leaf', hleaf'⟩ := Option.isSome_iff_exists.1 ((OrdMap.mem_keys_iff _).1 hknown)
  obtain ⟨hid, hactive'⟩ := h.active hleaf'
  have hsame : leaf' = leaf := hleaves.sortId_inj (mem_of_active hactive') hesc.1 hid
  rw [hsame] at hleaf'
  exact hleaf'

/-! ### The result -/

theorem pairwise_sortedStrs (xs : List String) : (sortedStrs xs).Pairwise (· ≤ ·) :=
  pairwise_mergeSort_key id xs

/-- Lists sorted strictly by id, with the same leaves, are the same. -/
theorem eq_of_sorted_ids {xs ys : List Dict} (hxs : xs.Pairwise fun a b => sortId a < sortId b)
    (hys : ys.Pairwise fun a b => sortId a < sortId b) (hmem : ∀ leaf, leaf ∈ xs ↔ leaf ∈ ys) :
    xs = ys := by
  have hnodup {zs : List Dict} (hzs : zs.Pairwise fun a b => sortId a < sortId b) : zs.Nodup :=
    hzs.imp fun hlt heq => absurd (congrArg sortId heq) (ne_of_lt hlt)
  have hperm : xs.Perm ys := (List.perm_ext_iff_of_nodup (hnodup hxs) (hnodup hys)).2 hmem
  exact hperm.eq_of_pairwise (fun a b _ _ hab hba => absurd hba (lt_asymm hab)) hxs hys

/-- The recorded leaves by id. -/
def Activated.byId (st : Activated) : List Dict :=
  st.leaves.values.mergeSort fun a b => sortId a ≤ sortId b

theorem mem_byId {st : Activated} {leaf : Dict} : leaf ∈ st.byId ↔ leaf ∈ st.leaves.values :=
  List.mem_mergeSort

namespace Sound

variable {seen : List Dict} {st : Activated}

theorem map_sortId_byId (h : Sound rt ct leaves change seen st) :
    (st.byId.map sortId).Perm st.leaves.keys := by
  rw [← h.map_sortId_values]
  exact (List.mergeSort_perm _ _).map sortId

theorem pairwise_byId (h : Sound rt ct leaves change seen st) :
    st.byId.Pairwise fun a b => sortId a < sortId b := by
  have hsorted : st.byId.Pairwise fun a b => sortId a ≤ sortId b :=
    pairwise_mergeSort_key sortId st.leaves.values
  have hdistinct : (st.byId.map sortId).Nodup :=
    h.map_sortId_byId.nodup_iff.2 st.leaves.keys_nodup
  refine (hsorted.and (List.pairwise_map.1 hdistinct)).imp ?_
  intro a b ⟨hle, hne⟩
  exact lt_of_le_of_ne hle hne

/-- The signals are listed in the order of the leaves. -/
theorem sortedStrs_keys_signals (h : Sound rt ct leaves change seen st) :
    sortedStrs st.signals.keys = st.byId.map sortId := by
  have hsorted : (st.byId.map sortId).Pairwise (· ≤ ·) :=
    List.pairwise_map.2 (h.pairwise_byId.imp le_of_lt)
  refine List.Perm.eq_of_pairwise' (pairwise_sortedStrs _) hsorted ?_
  refine (List.mergeSort_perm _ _).trans (.trans ?_ h.map_sortId_byId.symm)
  exact (List.perm_ext_iff_of_nodup st.signals.keys_nodup st.leaves.keys_nodup).2
    fun id => h.mem_keys_signals

/-- The two results are the recorded leaves by id, and the signals of each. -/
theorem sorted_eq (h : Sound rt ct leaves change seen st) :
    st.sorted = (st.byId,
      st.byId.map fun leaf => (sortId leaf, sortedStrs (signalsOf rt ct change leaf))) := by
  rw [Activated.sorted, h.sortedStrs_keys_signals, List.map_map]
  refine congrArg (Prod.mk st.byId) (List.map_congr_left ?_)
  intro leaf hleaf
  have hget : st.leaves.get? (sortId leaf) = some leaf := h.has_iff.1 (mem_byId.1 hleaf)
  show (sortId leaf, sortedStrs ((st.signals.get? (sortId leaf)).getD [])) = _
  rw [h.signals, hget]
  rfl

end Sound

/-- **What comes out, with any large enough cap: the active leaves by id, and why each is
active.** -/
theorem evaluate_spec (rt : Runtime) (ct : CharTable) (change : Change) (hleaves : WellTyped leaves)
    {cap : ℕ} (hcap : leaves.length < cap) :
    ∃ activated, evaluateWithin cap rt ct leaves change = .ok (activated,
        activated.map fun leaf => (sortId leaf, sortedStrs (signalsOf rt ct change leaf))) ∧
      (∀ leaf, leaf ∈ activated ↔ IsActive rt ct leaves change leaf) ∧
      activated.Pairwise fun a b => sortId a < sortId b := by
  obtain ⟨fired, hfired, hsound⟩ := fired_spec rt ct change hleaves
  -- every sweep but the last records a leaf, so one more than there are leaves suffices
  have hsweeps : leaves.length < cap + fired.leaves.keys.length := Nat.lt_add_right _ hcap
  obtain ⟨hlast, hclosed⟩ := Saturate.saturate_spec (grows_escalated hleaves) hsound hsweeps
  refine ⟨(Saturate.saturate escalated leaves cap fired).byId, ?_, fun leaf => ?_,
    hlast.pairwise_byId⟩
  · rw [evaluateWithin, hfired, Result.ok_bind, escalate_eq hleaves, Result.ok_bind,
      hlast.sorted_eq]
    rfl
  · rw [mem_byId, mem_values_iff_active hleaves hlast hclosed]

/-- The leaves that come out are settled by which leaves are active. -/
theorem evaluate_eq (hleaves : WellTyped leaves) {leaves' : List Dict}
    (hleaves' : WellTyped leaves')
    {cap cap' : ℕ} (hcap : leaves.length < cap) (hcap' : leaves'.length < cap')
    (hactive : ∀ leaf, IsActive rt ct leaves' change leaf ↔ IsActive rt ct leaves change leaf) :
    evaluateWithin cap' rt ct leaves' change = evaluateWithin cap rt ct leaves change := by
  obtain ⟨activated, heval, hmem, hsorted⟩ := evaluate_spec rt ct change hleaves hcap
  obtain ⟨activated', heval', hmem', hsorted'⟩ := evaluate_spec rt ct change hleaves' hcap'
  have hsame : activated' = activated :=
    eq_of_sorted_ids hsorted' hsorted fun leaf => by rw [hmem', hmem, hactive]
  rw [heval, heval', hsame]

/-- A set of leaves that has every leaf that fires, and every leaf with a parent in it. -/
structure EscalationClosed (rt : Runtime) (ct : CharTable) (leaves : List Dict) (change : Change)
    (S : Set Dict) : Prop where
  subset : ∀ leaf ∈ S, leaf ∈ leaves
  fires : ∀ leaf ∈ leaves, Fires rt ct change leaf → leaf ∈ S
  escalates : ∀ parent ∈ S, ∀ leaf, Escalates leaves parent leaf → leaf ∈ S

/-- The active leaves are the least such set. -/
theorem isLeast_active : IsLeast {S | EscalationClosed rt ct leaves change S}
    {leaf | IsActive rt ct leaves change leaf} := by
  constructor
  · exact ⟨fun leaf => mem_of_active, fun leaf hleaf hfires => .seed ⟨hleaf, hfires⟩,
      fun parent hparent leaf hesc => Saturate.Reached.step hparent hesc⟩
  · intro S hS leaf hactive
    exact hactive.mem_of_closed (fun leaf hleaf => hS.fires leaf hleaf.1 hleaf.2) hS.escalates

/-- More changed paths keep what is active active. -/
theorem active_mono {paths : List Value} (hsub : change.changedPaths ⊆ paths) {leaf : Dict}
    (h : IsActive rt ct leaves change leaf) :
    IsActive rt ct leaves { change with changedPaths := paths } leaf :=
  h.mono (fun _ hleaf => ⟨hleaf.1, hleaf.2.mono hsub⟩) fun _ _ hesc => hesc

/-- What is active does not depend on the order of the leaves. -/
theorem active_perm {leaves' : List Dict} (hperm : leaves'.Perm leaves) {leaf : Dict} :
    IsActive rt ct leaves' change leaf ↔ IsActive rt ct leaves change leaf := by
  have hleaf (leaf : Dict) : leaf ∈ leaves' ↔ leaf ∈ leaves := hperm.mem_iff
  constructor
  · intro h
    exact h.mono (fun leaf h => ⟨(hleaf leaf).1 h.1, h.2⟩) fun _ leaf h => ⟨(hleaf leaf).1 h.1, h.2⟩
  · intro h
    exact h.mono (fun leaf h => ⟨(hleaf leaf).2 h.1, h.2⟩) fun _ leaf h => ⟨(hleaf leaf).2 h.1, h.2⟩

/-- **`_evaluate_activation` computes the escalation closure**: the least set of leaves that has
every leaf that fires and is closed under escalation, sorted by id.  A larger cap gives the same,
any order of the leaves gives the same, and more changed paths keep what is activated. -/
theorem evaluateActivation_isLeast (rt : Runtime) (ct : CharTable) {leaves : List Dict}
    (hleaves : WellTyped leaves) (change : Change) :
    ∃ activated signals,
      evaluateActivation rt ct leaves change = .ok (activated, signals) ∧
      IsLeast {S | EscalationClosed rt ct leaves change S} {leaf | leaf ∈ activated} ∧
      (activated.Pairwise fun a b => sortId a < sortId b) ∧
      (∀ cap, leaves.length + 1 ≤ cap →
        evaluateWithin cap rt ct leaves change = .ok (activated, signals)) ∧
      (∀ leaves', leaves'.Perm leaves →
        evaluateActivation rt ct leaves' change = .ok (activated, signals)) ∧
      ∀ paths, change.changedPaths ⊆ paths → ∃ activated' signals',
        evaluateActivation rt ct leaves { change with changedPaths := paths } =
          .ok (activated', signals') ∧ activated ⊆ activated' := by
  have hcap : leaves.length < leaves.length + 1 := Nat.lt_succ_self _
  obtain ⟨activated, heval, hmem, hsorted⟩ := evaluate_spec rt ct change hleaves hcap
  refine ⟨activated, _, heval, ?_, hsorted, ?_, ?_, ?_⟩
  · have hset : {leaf | leaf ∈ activated} = {leaf | IsActive rt ct leaves change leaf} :=
      Set.ext hmem
    rw [hset]
    exact isLeast_active
  -- the result is settled by what is active, which mentions no cap and no order
  · intro cap hle
    rw [← heval]
    exact evaluate_eq hleaves hleaves hcap hle fun _ => Iff.rfl
  · intro leaves' hperm
    rw [← heval]
    exact evaluate_eq hleaves (hleaves.perm hperm) hcap (Nat.lt_succ_self _)
      fun _ => active_perm hperm
  · intro paths hsub
    obtain ⟨activated', heval', hmem', -⟩ :=
      evaluate_spec rt ct { change with changedPaths := paths } hleaves hcap
    exact ⟨activated', _, heval',
      fun leaf hleaf => (hmem' leaf).2 (active_mono hsub ((hmem leaf).1 hleaf))⟩

/-- A leaf that fires on Python files. -/
def firingLeaf : Dict :=
  [("id", .str "a"), ("activation", .dict [("file_globs", ofStrs ["**/*.py"])])]

/-- A leaf that escalates from another one. -/
def escalatingLeaf (id parent : String) : Dict :=
  [("id", .str id), ("activation", .dict [("escalation_from", ofStrs [parent])])]

/-- A chain of escalations, listed from its end. -/
def chainOfLeaves : List Dict := [escalatingLeaf "c" "b", escalatingLeaf "b" "a", firingLeaf]

theorem wellTyped_chainOfLeaves : WellTyped chainOfLeaves where
  id leaf hleaf := by
    simp only [chainOfLeaves, List.mem_cons, List.not_mem_nil, or_false] at hleaf
    rcases hleaf with rfl | rfl | rfl
    · exact ⟨"c", rfl, by decide⟩
    · exact ⟨"b", rfl, by decide⟩
    · exact ⟨"a", rfl, by decide⟩
  distinct := by decide +kernel
  block leaf hleaf := by
    simp only [chainOfLeaves, List.mem_cons, List.not_mem_nil, or_false] at hleaf
    rcases hleaf with rfl | rfl | rfl <;> exact ⟨_, rfl⟩

/-- Telling apart the characters of ASCII only. -/
def CharTable.ascii : CharTable where
  isAlnum := Char.isAlphanum
  sameIgnoringCase c d := c.toLower = d.toLower

/-- One Python file has changed. -/
def pythonChange : Change := ⟨[.str "src/a.py"], [], ""⟩

theorem evaluateActivation_isLeast_chain :
    WellTyped chainOfLeaves ∧ ∃ activated signals,
      evaluateActivation Runtime.ascii CharTable.ascii chainOfLeaves pythonChange =
        .ok (activated, signals) ∧
      IsLeast {S | EscalationClosed Runtime.ascii CharTable.ascii chainOfLeaves pythonChange S}
        {leaf | leaf ∈ activated} ∧
      chainOfLeaves ⊆ activated := by
  refine ⟨wellTyped_chainOfLeaves, ?_⟩
  obtain ⟨activated, signals, heval, hleast, -⟩ := evaluateActivation_isLeast Runtime.ascii
    CharTable.ascii wellTyped_chainOfLeaves pythonChange
  refine ⟨activated, signals, heval, hleast, ?_⟩
  have ha : firingLeaf ∈ activated :=
    hleast.1.fires firingLeaf (by simp [chainOfLeaves]) (.inl (by decide +kernel))
  have hb : escalatingLeaf "b" "a" ∈ activated :=
    hleast.1.escalates firingLeaf ha _ ⟨by simp [chainOfLeaves], by decide +kernel⟩
  have hc : escalatingLeaf "c" "b" ∈ activated :=
    hleast.1.escalates (escalatingLeaf "b" "a") hb _ ⟨by simp [chainOfLeaves], by decide +kernel⟩
  simp [chainOfLeaves, ha, hb, hc]

end CodeReview

import CodeReview.Handlers.FlaggedBy
import CodeReview.Runner.Loop

/-!
# To whom findings are attributed

The runner and the merge fill in a missing id, but pass on one that is a string, whatever it is.
The collector flags findings by the id of the output, and the gates look for that id.

* `entry_of_unit` : the merged output of a unit is the result of its dispatch, stamped and trimmed;
* `attribution_iff` : **the findings of a unit are attributed to its leaf exactly when the answer
  that was passed on names no other leaf.**
-/

namespace CodeReview

open Py Proc DispatchTree

variable {rt : Runtime} {σ : Type}

/-- A blocking finding fails every gate that the leaf lands in. -/
def FailsGatesOf (c : Collected) (leafId : String) : Prop :=
  ∀ (env : Dict) (r : Readiness) (leaf : Dict) (gate : ℕ × String),
    env.get "findings" = .list (c.findings.map .dict) →
    .dict leaf ∈ ensureList (env.get "picked_leaves") → leaf.get "id" = .str leafId →
    gate ∈ gateTable → contributes gate.1 leaf = true → synthesizeReleaseReadiness env = .ok r →
    ∃ row ∈ r.gates, row.number = gate.1 ∧ row.status = .fail

/-- An entry flagged by the leaf that blocks a release fails the leaf's gates. -/
theorem failsGatesOf_of_flags {c : Collected} {leafId : String} {entry : Dict}
    (hentry : entry ∈ c.findings) (hflags : Flags entry leafId) (hblock : Blocking entry) :
    FailsGatesOf c leafId := by
  intro env r leaf gate hfindings hleaf hid hgate hcontributes hr
  obtain ⟨bs, hbs, h⟩ := Result.bind_eq_ok.1 hr
  obtain rfl := Except.ok.inj h
  refine ⟨_, List.mem_map.2 ⟨gate, hgate, rfl⟩, rfl, ?_⟩
  have hblocker : leafId ∈ bs := by
    rw [mem_blockingFlaggedBy hbs, hfindings]
    exact ⟨entry, List.mem_map_of_mem hentry, hblock, hflags⟩
  exact gateRow_fail_iff.2 ⟨leaf, mem_dicts.2 hleaf, hcontributes,
    isBlocker_iff.2 ⟨_, hblocker, hid⟩⟩

/-- The merged output has the leaf's id, and if it is completed, then in every collection each of
its findings ends in an entry flagged by the leaf, and a blocking one fails the leaf's gates. -/
structure Attributed (rt : Runtime) (outputs : List Dict) (leafId : String) (out : Dict) :
    Prop where
  id : out.get "id" = .str leafId
  findings : out.get "status" = .str "completed" → ∀ (embed : Embed) (env : Dict) (c : Collected),
    env.get "specialist_outputs" = .list (outputs.map .dict) →
      collectFindings rt embed env = .ok c →
    ∀ f : Dict, .dict f ∈ ensureList (out.get "findings") →
      ∃ entry ∈ c.findings, EndsIn rt embed (outputs.map .dict) f entry ∧ Flags entry leafId ∧
        NotBelow f entry ∧ (Blocking f → FailsGatesOf c leafId)

/-- **An output with the leaf's id has its findings attributed to the leaf.** -/
theorem attributed_iff {outputs : List Dict} {leafId : String} {out : Dict}
    (hout : out ∈ outputs) : Attributed rt outputs leafId out ↔ out.get "id" = .str leafId := by
  refine ⟨Attributed.id, fun hid => ⟨hid, ?_⟩⟩
  intro hstatus embed env c houtputs hc f hf
  have hidD : out.getD "id" (.str "") = .str leafId := by
    unfold Dict.get at hid
    unfold Dict.getD
    cases hget : Assoc.get? out "id" with
    | none => simp [hget] at hid
    | some v => simpa [hget] using hid
  have hreport : (.str leafId, f) ∈ reports (ensureList (env.get "specialist_outputs")) := by
    rw [houtputs]
    refine List.mem_flatMap.2 ⟨out, mem_dicts.2 (List.mem_map_of_mem hout), ?_⟩
    rw [if_pos ((Value.eqv_str _ _).2 hstatus)]
    exact List.mem_map.2 ⟨f, mem_dicts.2 hf, by rw [hidD]⟩
  obtain ⟨entry, hentry, hends, hflags, hrank⟩ := collectFindings_endsIn hc hreport
  rw [houtputs] at hends
  exact ⟨entry, hentry, hends, hflags, hrank, fun hblock =>
    failsGatesOf_of_flags hentry hflags (Blocking.of_notBelow hrank hblock)⟩

/-! ### The entry of a unit -/

theorem get_stampId_iff {leafId : String} {out : Dict} :
    Dict.get (stampId leafId out) "id" = .str leafId ↔ ∀ s, out.get "id" = .str s → s = leafId := by
  unfold stampId
  cases hid : out.get "id" with
  | str s => simp [Value.asStr?, hid]
  | _ => simp [Value.asStr?]

namespace DispatchTree

/-- The answer that is passed on names no other leaf. -/
def KeepsId : DispatchTree → Prop
  | answered u _ out => ∀ s, out.get "id" = .str s → s = u.leafId
  | _ => True

/-- The stamped result has the leaf's id exactly when the answer names no other leaf. -/
theorem stampId_result_iff {t : DispatchTree} {r : Dict} (h : t.result = .ok r) :
    Dict.get (stampId t.unit.leafId r) "id" = .str t.unit.leafId ↔ t.KeepsId := by
  rw [get_stampId_iff]
  cases t with
  | answered u failures out =>
    obtain ⟨-, rfl⟩ := result_eq_ok_answered.1 h
    have hid : Dict.get (withDefaults u out) "id" =
        (Assoc.get? out "id").getD (.str u.leafId) := by
      rw [Dict.get, get?_withDefaults]
      rfl
    rw [hid, KeepsId]
    unfold Dict.get
    cases Assoc.get? out "id" <;> simp [unit]
  | gaveUp u failures last =>
    obtain rfl := Except.ok.inj h
    exact iff_of_true (fun s hs => (Value.str.inj hs).symm) trivial
  | stranded u failures last => cases h
  | tooLarge u failures =>
    obtain rfl := Except.ok.inj h
    exact iff_of_true (fun s hs => (Value.str.inj hs).symm) trivial
  | split u failures l r =>
    obtain ⟨outL, outR, fl, fr, -, -, -, -, hmerged⟩ := result_eq_ok_split.1 h
    obtain ⟨sums, hsums, rfl⟩ := mergedOutput_eq_ok.1 hmerged
    refine iff_of_true (fun s hs => ?_) trivial
    rw [Dict.get, get?_overflowOut hsums, if_neg (by decide)] at hs
    exact (Value.str.inj hs).symm
  | cut u failures exc l => cases h

end DispatchTree

theorem exists_zip_of_forall₂ {α β : Type} {R : α → β → Prop} {xs : List α} {ys : List β}
    (h : List.Forall₂ R xs ys) {a : α} (ha : a ∈ xs) : ∃ b, (a, b) ∈ xs.zip ys ∧ R a b := by
  induction h with
  | nil => cases ha
  | cons hab _ ih =>
    rcases List.mem_cons.1 ha with rfl | ha
    · exact ⟨_, List.mem_cons_self, hab⟩
    · obtain ⟨b, hb, hR⟩ := ih ha
      exact ⟨b, List.mem_cons_of_mem _ hb, hR⟩

/-- What a key is paired with is related to it by both relations. -/
theorem exists_zip_of_keepsLast {payloads : List Dict} {keys : List UnitKey} {outputs : List Dict}
    (h : KeepsLast rt payloads keys outputs) {key : UnitKey} (hkey : key ∈ keys) :
    ∃ kept out, (key, out) ∈ keys.zip outputs ∧ FromLast payloads key kept ∧ Trims kept out := by
  obtain ⟨kepts, hlast, htrims, -⟩ := h.last
  have hboth : List.Forall₂ (fun key out => ∃ kept, FromLast payloads key kept ∧ Trims kept out)
      keys outputs := by
    clear hkey h
    induction hlast generalizing outputs with
    | nil => cases htrims; exact .nil
    | cons hkept _ ih =>
      cases htrims with
      | cons htrim hrest => exact .cons ⟨_, hkept, htrim⟩ (ih hrest)
  obtain ⟨out, hzip, kept, hkept, htrim⟩ := exists_zip_of_forall₂ hboth hkey
  exact ⟨kept, out, hzip, hkept, htrim⟩

/-- The merged output of a unit is the result of a dispatch with its key, stamped and trimmed. -/
theorem entry_of_unit {world : Environment σ} {shared : σ} {maxRetries : ℤ} {env env' : Dict}
    {log : List (Fin (planUnits env).length × Event Effect Reply)} {m : ResultMap} {s : LoopState}
    {merged : Merged} (hdispatch : DispatchUnits world shared maxRetries (planUnits env) log
      (.ok m))
    (hdrive : Drives (· = m) (envPlanned env) (planBatches env) .start
      (iterations (planBatches env)) s)
    (henv : MergeEnv env' (planBatches env) s.loopIters)
    (hmerged : handleMergeSpecialistOutputs rt env' = .ok merged) :
    ∃ keys, KeepsLast rt s.loopIters keys merged.specialistOutputs ∧
      ∀ u ∈ planUnits env, ∃ (i : Fin (planUnits env).length) (t : DispatchTree) (r out : Dict),
        (planUnits env)[i].key = u.key ∧ t.unit = (planUnits env)[i] ∧
        t.Valid maxRetries.toNat maxRetries.toNat ∧ Pool.stepsOf log i = t.traceFrom 0 ∧
        t.result = .ok r ∧ m.get? u.key = some r ∧
        (u.key, out) ∈ keys.zip merged.specialistOutputs ∧ Trims (stampId u.leafId r) out := by
  obtain ⟨results, ⟨p', hrun, hend⟩, hm⟩ := hdispatch.ends
  obtain ⟨hkeys, hvalues⟩ := collectResults_spec hm.symm
  have hpayloads := payloads_of_drive (by rintro _ rfl; exact hkeys) hdrive
  have hentry (e : UnitKey × IterEntry) (he : e ∈ iterEntries s.loopIters) :
      ∃ w ∈ planUnits env, e.1 = w.key ∧ e.2.entry = iterOutput m w := by
    rcases hpayloads with ⟨-, hloop⟩ | ⟨_, rfl, hloop⟩
    · rw [hloop] at he
      cases he
    · rw [hloop] at he
      obtain ⟨j, batch, hbatch, w, hw, rfl⟩ := mem_iterEntries_drive.1 he
      refine ⟨w, ?_, rfl, rfl⟩
      rw [← flatten_planBatches]
      exact List.mem_flatten.2 ⟨batch, List.mem_of_getElem? hbatch, hw⟩
  have hout : HasOutputs s.loopIters := fun e he => by
    obtain ⟨w, -, -, hw⟩ := hentry e he
    exact ⟨_, by rw [hw]; rfl⟩
  obtain ⟨keys, hkeeps⟩ := merge_keeps_last henv hout hmerged
  refine ⟨keys, hkeeps, ?_⟩
  intro u hu
  have hukey : u.key ∈ keys := by
    rw [hkeeps.mem_keys]
    rcases hpayloads with ⟨hunits, -⟩ | ⟨_, rfl, hloop⟩
    · rw [hunits] at hu
      cases hu
    · rw [hloop, mem_keys_drive, flatten_planBatches]
      exact ⟨u, hu, rfl⟩
  obtain ⟨kept, out, hzip, ⟨e, hlast, hstamp⟩, htrim⟩ := exists_zip_of_keepsLast hkeeps hukey
  obtain ⟨w, hw, hwkey, hwentry⟩ := hentry (u.key, e) (mem_iterEntries_of_lastOf hlast)
  -- the result that the loop recorded under the key
  obtain ⟨r, hr⟩ := Option.isSome_iff_exists.1 ((OrdMap.mem_keys_iff m).1 (hkeys w hw))
  obtain ⟨i, hi, hres⟩ := hvalues w.key r hr
  obtain ⟨t, hunit, hvalid, htrace, hresult⟩ := runs_dispatchOne.1 (Pool.project hrun (hend i))
  have hspecialist : e.entry.get "specialist_output" = .dict r := by
    change e.entry = iterOutput m w at hwentry
    rw [hwentry]
    change Value.dict ((m.get? w.key).getD _) = _
    rw [hr]
    rfl
  rw [stampedOutput_eq_some hspecialist, Option.some.injEq] at hstamp
  subst hstamp
  have hget : m.get? u.key = some r := by
    change u.key = w.key at hwkey
    rw [hwkey, hr]
  exact ⟨i, t, r, out, hi.trans hwkey.symm, hunit, hvalid, htrace, by rw [← hresult, hres], hget,
    hzip, htrim⟩

/-- An answer for the leaf `quality` that names another leaf. -/
def foreignAnswer : Dict := [("id", "security"), ("status", "completed"), ("findings", .list [])]

theorem foreignAnswer_convertible : StampConvertible foreignAnswer := by
  refine ⟨?_, ?_, ?_, ?_⟩ <;> rintro x ⟨⟩

theorem foreignAnswer_lists : ListFindings foreignAnswer := by
  rintro v ⟨⟩
  exact ⟨[], rfl⟩

/-- The one leaf driven with the foreign answer, up to the merge. -/
theorem foreignAnswer_merged :
    ∃ log m s merged,
      DispatchUnits (fixedAnswers foreignAnswer) () 0 (planUnits oneLeaf) log (.ok m) ∧
      (∀ key r, m.get? key = some r → ∃ u, r = withDefaults u foreignAnswer) ∧
      Drives (· = m) (envPlanned oneLeaf) (planBatches oneLeaf) .start
        (iterations (planBatches oneLeaf)) s ∧
      handleMergeSpecialistOutputs .ascii (envLooped oneLeaf s.loopIters) = .ok merged := by
  obtain ⟨log, m, s, hm, hanswers, hs⟩ := oneLeaf_drives foreignAnswer_convertible
  have hcan : ∀ m', m' = m →
      CanDispatch (fixedAnswers foreignAnswer) () 0 (planUnits oneLeaf) m' :=
    fun m' hm' => ⟨log, hm' ▸ hm⟩
  obtain ⟨merged, hmerged⟩ :
      Result.Ok (handleMergeSpecialistOutputs .ascii (envLooped oneLeaf s.loopIters)) :=
    merge_of_drive (fixedAnswers_lists foreignAnswer_lists) (hs.mono hcan)
      (mergeEnv_envLooped (by rintro xs ⟨⟩))
  exact ⟨log, m, s, merged, hm, hanswers, hs, hmerged⟩

end CodeReview
